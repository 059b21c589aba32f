import Chip8.Machine.Cycle
import Chip8.Proofs.Memory

/-!
# What an instruction leaves alone

Each fallible effect is inverted once: a success names the intermediate result and the whole
next state. From these inversions and the definition of `perform` follows the frame of an
instruction, the list of parts that it can change only if its operation says so. Facts about
runs are derived from the frame and from the inversions, never from `perform` itself.
-/

namespace Chip8

namespace Op

attribute [simp] touchesScreen

/-- Whether an operation may set the program counter. -/
@[simp]
def branches : Op → Bool
  | ret | jump | call | skip _ | jumpOffset | awaitKey => true
  | _ => false

/-- Whether an operation may set the index. -/
@[simp]
def touchesIndex : Op → Bool
  | setIndex | addIndex | glyph | store | load => true
  | _ => false

/-- Whether an operation may write to memory. -/
@[simp]
def touchesMemory : Op → Bool
  | storeDecimal | store => true
  | _ => false

end Op

namespace Machine

variable {m n : Machine} {i : Instruction}

/-- A call puts the program counter on the stack and goes to its target. -/
theorem call_eq_ok_iff {address : UInt16} :
    m.call address = .ok n ↔
      ∃ stack, m.stack.push m.pc = .ok stack ∧ n = { m with stack, pc := address } := by
  simp only [call, bind_eq_ok_iff, pure, Except.pure, Except.ok.injEq, eq_comm (a := n)]

/-- A return goes to the address that it takes from the stack. -/
theorem ret_eq_ok_iff :
    m.ret = .ok n ↔
      ∃ address stack, m.stack.pop = .ok (address, stack) ∧
        n = { m with stack, pc := address } := by
  simp only [ret, bind_eq_ok_iff, pure, Except.pure, Except.ok.injEq, Prod.exists, eq_comm (a := n)]

/-- A draw reads its rows and then changes the screen and the flag register. -/
theorem drawSprite_eq_ok_iff {x y : Fin registerCount} {height : Nat} :
    m.drawSprite x y height = .ok n ↔
      ∃ rows, m.memory.readBytes m.index.toNat height = .ok rows ∧
        n = { m with screen := m.screen.xor (Sprite.mask rows ((m.register x).toNat % screenWidth)
            ((m.register y).toNat % screenHeight) m.dialect.drawWraps) }.setFlag
          (m.screen.meets (Sprite.mask rows ((m.register x).toNat % screenWidth)
            ((m.register y).toNat % screenHeight) m.dialect.drawWraps)) := by
  simp only [drawSprite, bind_eq_ok_iff, pure, Except.pure, Except.ok.injEq, eq_comm (a := n)]

/-- Storing decimal digits changes memory alone. -/
theorem storeDecimal_eq_ok_iff {x : Fin registerCount} :
    m.storeDecimal x = .ok n ↔
      ∃ memory, m.memory.writeBytes m.index.toNat (decimalDigits (m.register x)) = .ok memory ∧
        n = { m with memory } := by
  simp only [storeDecimal, bind_eq_ok_iff, pure, Except.pure, Except.ok.injEq, eq_comm (a := n)]

/-- Storing registers changes memory and moves the index. -/
theorem storeRegisters_eq_ok_iff {x : Fin registerCount} :
    m.storeRegisters x = .ok n ↔
      ∃ memory,
        m.memory.writeBytes m.index.toNat (m.registers.toList.take (x.val + 1)) = .ok memory ∧
        n = { m with memory, index := m.indexAfterTransfer x } := by
  simp only [storeRegisters, bind_eq_ok_iff, pure, Except.pure, Except.ok.injEq, eq_comm (a := n)]

/-- Loading registers changes registers and moves the index. -/
theorem loadRegisters_eq_ok_iff {x : Fin registerCount} :
    m.loadRegisters x = .ok n ↔
      ∃ values, m.memory.readBytes m.index.toNat (x.val + 1 : Nat) = .ok values ∧
        n = { m with
          registers := overwrite m.registers values
          index := m.indexAfterTransfer x } := by
  simp only [loadRegisters, bind_eq_ok_iff, pure, Except.pure, Except.ok.injEq, eq_comm (a := n)]

/-- A transfer of registers leaves the index where the dialect says. -/
theorem index_of_transfer (hop : i.op = .store ∨ i.op = .load) (h : m.perform i = .ok n) :
    n.index = m.indexAfterTransfer i.x := by
  obtain ⟨op, word⟩ := i
  rcases hop with rfl | rfl
  · obtain ⟨memory, -, rfl⟩ := storeRegisters_eq_ok_iff.mp h
    rfl
  · obtain ⟨values, -, rfl⟩ := loadRegisters_eq_ok_iff.mp h
    rfl

/-- The registers up to one are one more than its number. -/
theorem length_take_registers (registers : Registers) (x : Fin registerCount) :
    (registers.toList.take (x.val + 1)).length = x.val + 1 := by
  rw [List.length_take, Vector.length_toList]
  exact Nat.min_eq_left x.isLt

/-- A register that is overwritten takes its byte from the run, if that is long enough. -/
theorem get_overwrite (registers : Registers) (values : List UInt8) (z : Fin registerCount) :
    (overwrite registers values).get z = values[z.val]?.getD (registers.get z) :=
  Vector.getElem_ofFn z.isLt

/-- A skip moves the program counter or nothing. -/
theorem skipIf_eq (m : Machine) (condition : Bool) :
    m.skipIf condition = { m with pc := if condition then m.pc + 2 else m.pc } := by
  cases condition <;> rfl

/-- Register arithmetic changes registers alone. -/
theorem combine_eq (m : Machine) (operation : Alu) (x y : Fin registerCount) :
    ∃ registers, m.combine operation x y = { m with registers } := by
  simp only [combine]
  split
  · exact ⟨_, rfl⟩
  · split
    · exact ⟨_, rfl⟩
    · exact ⟨_, rfl⟩

/-- Two states of which the second keeps everything that an instruction has no business with. -/
structure Frame (i : Instruction) (m n : Machine) : Prop where
  keypad : n.keypad = m.keypad
  cycles : n.cycles = m.cycles
  dialect : n.dialect = m.dialect
  screen : i.op.touchesScreen = false → n.screen = m.screen
  stack : i.op ≠ .call → i.op ≠ .ret → n.stack = m.stack
  random : i.op ≠ .random → n.random = m.random
  delay : i.op ≠ .setDelay → n.delay = m.delay
  sound : i.op ≠ .setSound → n.sound = m.sound
  wait : i.op ≠ .awaitKey → n.wait = m.wait
  index : i.op.touchesIndex = false → n.index = m.index
  memory : i.op.touchesMemory = false → n.memory = m.memory
  pc : i.op.branches = false → n.pc = m.pc

/-- A successful instruction respects its frame. -/
theorem frame_of_perform (h : m.perform i = .ok n) : Frame i m n := by
  obtain ⟨op, word⟩ := i
  cases op with
  | machineCall => cases h
  | ret =>
    obtain ⟨address, stack, -, rfl⟩ := ret_eq_ok_iff.mp h
    constructor <;> simp
  | call =>
    obtain ⟨stack, -, rfl⟩ := call_eq_ok_iff.mp h
    constructor <;> simp
  | skip condition =>
    cases h
    rw [skipIf_eq]
    constructor <;> simp
  | alu operation =>
    obtain ⟨registers, he⟩ := m.combine_eq operation _ _
    cases h
    rw [he]
    constructor <;> simp
  | draw =>
    obtain ⟨rows, -, rfl⟩ := drawSprite_eq_ok_iff.mp h
    constructor <;> simp [setFlag, setRegister]
  | storeDecimal =>
    obtain ⟨memory, -, rfl⟩ := storeDecimal_eq_ok_iff.mp h
    constructor <;> simp
  | store =>
    obtain ⟨memory, -, rfl⟩ := storeRegisters_eq_ok_iff.mp h
    constructor <;> simp
  | load =>
    obtain ⟨values, -, rfl⟩ := loadRegisters_eq_ok_iff.mp h
    constructor <;> simp
  | _ =>
    cases h
    constructor <;> simp [setRegister, drawRandom, jumpTo, awaitKey]

end Machine

end Chip8
