import Chip8.Proofs.Machine.Fault
import Chip8.Proofs.Session.Create

/-!
# How a step can fail

A step of a session that is ready runs one cycle, so it fails exactly in the ways in which the cycle
does, and every failure is a report of the fault and its place.
-/

namespace Chip8.Session

variable {s : Session}

/-- A step of a session that is ready fails exactly in the ways in which the next cycle of its machine
can fail, with that fault and no other, and succeeds in every other state. The ways are listed by what
the machine shows: its next word, its index and its call stack. -/
theorem step_eq_error_iff_fails (hready : s.status = .ready) :
    (∀ failure, s.step.1 = .error failure ↔
      ∃ opcode fault, s.machine.Fails opcode fault ∧
        failure = .execution ⟨fault, s.machine.site opcode⟩) ∧
    ((∃ touched, s.step.1 = .ok touched) ↔ ∀ opcode fault, ¬ s.machine.Fails opcode fault) := by
  obtain ⟨hf, ha⟩ := status_eq_ready_iff.mp hready
  cases hc : s.machine.cycle with
  | error report =>
    obtain ⟨journal, he⟩ := step_of_cycle_error hf ha hc
    obtain ⟨opcode, fault, hfails, rfl⟩ := Machine.cycle_eq_error_iff.mp hc
    rw [he]
    constructor
    · intro failure
      constructor
      · intro h
        cases h
        exact ⟨opcode, fault, hfails, rfl⟩
      · rintro ⟨opcode', fault', hfails', rfl⟩
        rw [hfails'.cycle_eq] at hc
        rw [Except.error.inj hc]
    · constructor
      · rintro ⟨touched, h⟩
        cases h
      · intro h
        exact absurd hfails (h opcode fault)
  | ok outcome =>
    obtain ⟨journal, he⟩ := step_of_cycle_ok hf ha hc
    have hnone : ∀ opcode fault, ¬ s.machine.Fails opcode fault := by
      intro opcode fault hfails
      rw [hfails.cycle_eq] at hc
      cases hc
    rw [he]
    constructor
    · intro failure
      constructor
      · intro h
        cases h
      · rintro ⟨opcode, fault, hfails, -⟩
        exact absurd hfails (hnone opcode fault)
    · exact ⟨fun _ => hnone, fun _ => ⟨_, rfl⟩⟩

/-- A draw of no rows fails if the index lies past the end of memory. -/
theorem fails_on_empty_sprite_outside :
    ∃ created s : Session,
      created = (create (some [0xD0, 0x00]) .cosmac ⟨0, 0⟩ (.start "chip8" .warning)).2 ∧
      s = { created with machine := { created.machine with index := 0xFFFF } } ∧
      s.status = .ready ∧
      s.step.1 = .error (.execution
        ⟨.outOfBounds 0xFFFF .outside, some ⟨0x200, some 0xD000, 0⟩⟩) := by
  obtain ⟨created, hcreated⟩ : ∃ s : Session,
    s = (create (some [0xD0, 0x00]) .cosmac ⟨0, 0⟩ (.start "chip8" .warning)).2 := ⟨_, rfl⟩
  obtain ⟨s, hs⟩ : ∃ s : Session,
    s = { created with machine := { created.machine with index := 0xFFFF } } := ⟨_, rfl⟩
  have hready : s.status = .ready := by
    have hcreation : created.status = .ready := hcreated ▸ status_create (by decide)
    rw [hs]
    exact hcreation
  have hword : s.machine.memory.readWord s.machine.pc.toNat = .ok 0xD000 := by
    have hread : created.machine.memory.readWord created.machine.pc.toNat = .ok 0xD000 :=
      hcreated ▸ readWord_create (by decide)
    rw [hs]
    exact hread
  have hindex : s.machine.index = 0xFFFF := by rw [hs]
  have hsite : s.machine.site (some 0xD000) = ⟨0x200, some 0xD000, 0⟩ := by
    rw [hs, hcreated, Machine.site, machine_create (by decide)]
    rfl
  have hrun : Op.ReadsRun (0xD000 : UInt16).toNat 0 := Or.inl ⟨by simp [Op.Fits], rfl⟩
  have hfails := Machine.Fails.read hword hrun (by rw [hindex]; decide)
  obtain ⟨hfailure, -⟩ := step_eq_error_iff_fails hready
  have hstep := (hfailure _).mpr ⟨_, _, hfails, rfl⟩
  rw [hindex, hsite] at hstep
  exact ⟨created, s, hcreated, hs, hready, hstep⟩

end Chip8.Session
