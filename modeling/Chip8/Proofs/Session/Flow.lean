import Chip8.Proofs.Machine.Flow
import Chip8.Proofs.Session.Create

/-!
# Where a step takes a program

A step of a session that is ready moves the program counter as the word under it says. The end of
memory does not stop it: past the last word it stands outside, where the next step fails.
-/

namespace Chip8.Session

/-- A step that succeeds takes the program to where the word at its counter says, and in every state
exactly one of two opposite skips leaves out the next word. -/
theorem step_goesOn (s : Session) :
    (s.status = .ready → ∀ touched, s.step.1 = .ok touched →
      ∃ hend : s.machine.pc.toNat + 1 < memorySize,
        s.machine.GoesOn (s.machine.memory.wordAt s.machine.pc.toNat hend)
          s.step.2.machine.pc.toNat) ∧
    ∀ w w', Machine.Opposite w w' → (s.machine.LeavesOutNext w ↔ ¬ s.machine.LeavesOutNext w') := by
  constructor
  · intro hready touched hok
    obtain ⟨hf, ha⟩ := status_eq_ready_iff.mp hready
    obtain ⟨op, machine, journal, hc, he⟩ := cycle_of_step_ok hf ha hok
    rw [he]
    exact Machine.goesOn_of_cycle hc
  · intro w w' h
    exact Machine.leavesOutNext_iff_of_opposite h

/-- A program that jumps to the last word of memory and skips there leaves memory. -/
theorem skips_past_memory :
    ∃ created s : Session,
      created = (create (some (0x1F :: 0xFE :: (List.replicate 3580 0 ++ [0x30, 0x00]))) .cosmac
        ⟨0, 0⟩ (.start "chip8" .warning)).2 ∧
      s = created.step.2 ∧ s.status = .ready ∧ s.machine.pc.toNat = 0xFFE ∧
      s.step.1 = .ok false ∧ s.step.2.machine.pc.toNat = 0x1002 := by
  obtain ⟨first, hsplit⟩ : ∃ first : List UInt8, first = 0x1F :: 0xFE :: List.replicate 3580 0 :=
    ⟨_, rfl⟩
  have hlength : first.length = 3582 := by
    rw [hsplit, List.length_cons, List.length_cons, List.length_replicate]
  obtain ⟨rom, hrom⟩ : ∃ rom, rom = first ++ [0x30, 0x00] := ⟨_, rfl⟩
  have hfit : rom.length ≤ romCapacity := by
    rw [hrom, List.length_append, hlength]
    decide
  obtain ⟨memory, hmemory⟩ : ∃ memory, memory = Machine.blankMemory.patch programStart rom :=
    ⟨_, rfl⟩
  have hjump : memory.readWord (0x200 : Nat) = .ok 0x1FFE := by
    rw [hmemory, hrom, hsplit]
    exact Memory.readWord_patch _ (by decide) _ _ _
  have hskip : memory.readWord (0xFFE : Nat) = .ok 0x3000 := by
    rw [hmemory, hrom, Memory.patch_append, hlength]
    exact Memory.readWord_patch _ (by decide) 0x30 0x00 []
  obtain ⟨created, hcreated⟩ : ∃ created, created =
    (create (some rom) .cosmac ⟨0, 0⟩ (.start "chip8" .warning)).2 := ⟨_, rfl⟩
  have hmachine : created.machine = { Machine.initial ⟨0, 0⟩ .cosmac with memory } := by
    rw [hcreated, machine_create hfit, hmemory]
  have hcycle : created.machine.cycle =
      .ok (.jump, { created.machine with pc := 0xFFE, cycles := 1 }) := by
    rw [hmachine]
    exact Machine.cycle_eq_ok_iff.mpr ⟨0x1FFE, _, hjump, rfl, rfl, rfl⟩
  have hcreation : created.status = .ready := hcreated ▸ status_create hfit
  obtain ⟨hfailure, hinactive⟩ := status_eq_ready_iff.mp hcreation
  obtain ⟨journal, hstep⟩ := step_of_cycle_ok hfailure hinactive hcycle
  obtain ⟨s, hs⟩ : ∃ s, s = created.step.2 := ⟨_, rfl⟩
  have hafter : s = { created with
    machine := { created.machine with pc := 0xFFE, cycles := 1 }, journal } := by
    rw [hs, hstep]
  have hready : s.status = .ready := by
    rw [hafter]
    exact hcreation
  have hpc : s.machine.pc.toNat = 0xFFE := by
    rw [hafter]
    rfl
  have hword : s.machine.memory.readWord s.machine.pc.toNat = .ok 0x3000 := by
    rw [hpc, hafter, hmachine]
    exact hskip
  have hmeets : s.machine.Meets 0x3000 .byteEqual := by
    rw [hafter, hmachine]
    rfl
  have hok : s.step.1 = .ok false := by
    obtain ⟨hf, ha⟩ := status_eq_ready_iff.mp hready
    obtain ⟨journal, he⟩ := step_of_cycle_ok hf ha
      (Machine.cycle_eq_ok_iff.mpr ⟨0x3000, _, hword, rfl, rfl, rfl⟩)
    rw [he]
    rfl
  obtain ⟨hend, hgoes⟩ := (step_goesOn s).1 hready false hok
  obtain ⟨_, hat⟩ := Memory.toNat_readWord hword
  rw [← hat] at hgoes
  refine ⟨created, s, ?_, hs, hready, hpc, hok, ?_⟩
  · rw [hcreated, hrom, hsplit]
    rfl
  · rw [hgoes.skip ⟨.byteEqual, by simp [Op.Fits], hmeets⟩, hpc]

end Chip8.Session
