import Chip8.Proofs.Session.Step

/-!
# Created sessions

A session that is created with a program that fits holds a fresh machine with the program in its
place. Its first instruction is the first two bytes of the program.
-/

namespace Chip8

/-- A program of two bytes or more puts its first word at its start. -/
theorem Memory.readWord_patch (m : Memory) {a : Nat} (ha : a + 2 ≤ memorySize) (hi lo : UInt8)
    (rest : List UInt8) :
    (m.patch a (hi :: lo :: rest)).readWord a = .ok (hi.toUInt16 * 256 + lo.toUInt16) := by
  rw [readWord_natCast _ ha, get_patch, get_patch]
  simp

namespace Session

variable {rom : List UInt8} {dialect : Dialect} {seed : Random.Block} {journal : Journal}

/-- The machine of a new session with a program that fits. -/
theorem machine_create (h : rom.length ≤ romCapacity) :
    (create (some rom) dialect seed journal).2.machine =
      { Machine.initial seed dialect with
        memory := Machine.blankMemory.patch programStart rom } := by
  simp only [create, load, freshMachine, vacant, Machine.loadProgram?, Memory.loadProgram?, h,
    ite_true, Option.map_some]
  rfl

/-- A new session has not failed, even if its program was refused. -/
theorem failure_create (rom : Option (List UInt8)) :
    (create rom dialect seed journal).2.failure = none := by
  cases rom with
  | none => rfl
  | some rom =>
    rcases (vacant dialect seed journal).load_cases rom with ⟨-, _, he⟩ | ⟨_, _, -, he⟩
    · simp only [create, he]
      rfl
    · simp only [create, he]

/-- A new session is ready to run its program. -/
theorem status_create (h : rom.length ≤ romCapacity) :
    (create (some rom) dialect seed journal).2.status = .ready := by
  simp only [status, failure_create, machine_create h]
  rfl

/-- A new session stands on the first word of its program. -/
theorem readWord_create {hi lo : UInt8} {rest : List UInt8} (h : rest.length + 2 ≤ romCapacity) :
    (create (some (hi :: lo :: rest)) dialect seed journal).2.machine.memory.readWord
        (create (some (hi :: lo :: rest)) dialect seed journal).2.machine.pc.toNat =
      .ok (hi.toUInt16 * 256 + lo.toUInt16) := by
  have hfit : (hi :: lo :: rest).length ≤ romCapacity := by
    simp only [List.length_cons]
    exact h
  have hpc : (Machine.initial seed dialect).pc.toNat = programStart := rfl
  rw [machine_create hfit]
  simp only [hpc]
  exact Memory.readWord_patch _ (by decide) hi lo rest

end Session

end Chip8
