import Chip8.Machine.Execute

/-!
# One cycle

Reading the next instruction word, and the whole cycle of reading, decoding and executing. A
failed cycle is reported with its place; the report holds the word if it could be read.
-/

namespace Chip8.Machine

/-- Read the next instruction word and go past it. -/
def fetch (m : Machine) : Except Fault (UInt16 × Machine) := do
  let word ← m.memory.readWord m.pc.toNat
  return (word, { m with pc := m.pc + 2 })

/-- The place of a failure in the next instruction. -/
def site (m : Machine) (opcode : Option UInt16) : Site where
  pc := m.pc.toNat
  opcode := opcode.map fun word => (word.toNat : Int)
  cycle := m.cycles

/-- Run the next instruction and count it. -/
def cycle (m : Machine) : Except Report (Op × Machine) :=
  match m.fetch with
  | .error fault => .error ⟨fault, m.site none⟩
  | .ok (word, fetched) =>
    match Instruction.ofWord word with
    | .error fault => .error ⟨fault, m.site (some word)⟩
    | .ok i =>
      match fetched.perform i with
      | .error fault => .error ⟨fault, m.site (some word)⟩
      | .ok next => .ok (i.op, { next with cycles := next.cycles + 1 })

end Chip8.Machine
