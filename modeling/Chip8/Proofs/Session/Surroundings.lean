import Chip8.Proofs.Machine.Surroundings
import Chip8.Proofs.Session.Trail

/-!
# What surrounds a session's program

What a session adds to its machine is the failure, the key wait and the journal. A step does the same
whatever the rest of a session is replaced by, as long as its cycle does and these do. So a change of
the dialect, the keypad or the timers can come before a step or after it unless the step carries out
an instruction that notices it.
-/

namespace Chip8.Session

variable {s : Session} {c : Change}
variable {d : Dialect → Dialect} {f : Machine → Machine} {r : Journal → Journal}

/-- A session whose dialect, machine and journal are replaced. -/
def mapParts (s : Session) (d : Dialect → Dialect) (f : Machine → Machine)
    (r : Journal → Journal) : Session :=
  { s with dialect := d s.dialect, machine := f s.machine, journal := r s.journal }

/-- Replacements that do not show in what a session adds to its machine: key waits go on as before,
and an entry can be recorded before the journal is replaced or after it. -/
structure Unnoticed (s : Session) (f : Machine → Machine) (r : Journal → Journal) : Prop where
  wait (m : Machine) : (f m).wait = m.wait
  pc (m : Machine) : (f m).pc = m.pc
  resume (m : Machine) : (f m).resume = f m.resume
  record (level : Level) (message : String) :
    (r s.journal).record level message = r (s.journal.record level message)

theorem Unnoticed.note_mapParts (h : s.Unnoticed f r) (level : Level) (message : String) :
    (s.mapParts d f r).note level message = (s.note level message).mapParts d f r := by
  have hrecord := h.record level message
  simp only [note, mapParts, hrecord]

theorem Unnoticed.resume_mapParts (h : s.Unnoticed f r) :
    (s.mapParts d f r).resume = s.resume.mapParts d f r := by
  have hmachine : (s.mapParts d f r).machine = f s.machine := rfl
  unfold Session.resume
  rw [hmachine, h.wait, h.resume]
  cases s.machine.wait.latched with
  | none => rfl
  | some key =>
    have hresumed : ({ s with machine := s.machine.resume } : Session).Unnoticed f r := { h with }
    simp only [h.pc]
    exact hresumed.note_mapParts _ _

theorem Unnoticed.noteWait_mapParts (h : s.Unnoticed f r) :
    (s.mapParts d f r).noteWait = s.noteWait.mapParts d f r := by
  have hmachine : (s.mapParts d f r).machine = f s.machine := rfl
  unfold noteWait
  rw [hmachine, h.wait]
  cases s.machine.wait.active with
  | false => rfl
  | true => exact h.note_mapParts _ _

/-- What can be replaced before a cycle of the machine or after it can be replaced so with a cycle of
the session. -/
theorem Unnoticed.cycle_mapParts (h : s.Unnoticed f r)
    (hcycle : (f s.machine).cycle = s.machine.cycle.map (Prod.map id f)) :
    (s.mapParts d f r).cycle = Prod.map id (·.mapParts d f r) s.cycle := by
  have hmachine : (s.mapParts d f r).machine = f s.machine := rfl
  unfold cycle
  rw [hmachine, hcycle]
  cases s.machine.cycle with
  | error report =>
    have hfailed : ({ s with failure := some report } : Session).Unnoticed f r := { h with }
    exact Prod.ext rfl (hfailed.note_mapParts _ _)
  | ok outcome =>
    have hnext : ({ s with machine := outcome.2 } : Session).Unnoticed f r := { h with }
    exact Prod.ext rfl hnext.noteWait_mapParts

/-- What can be replaced before the cycle of a step or after it can be replaced so with the step. -/
theorem Unnoticed.step_mapParts (h : s.Unnoticed f r)
    (hcycle : s.status = .ready → (f s.machine).cycle = s.machine.cycle.map (Prod.map id f)) :
    (s.mapParts d f r).step = Prod.map id (·.mapParts d f r) s.step := by
  cases hf : s.failure with
  | some report =>
    rw [step_of_failure hf]
    exact step_of_failure hf
  | none =>
    have hwait : (s.mapParts d f r).machine.wait = s.machine.wait := h.wait s.machine
    cases ha : s.machine.wait.active with
    | true =>
      have hactive : (s.mapParts d f r).machine.wait.active = true := by rw [hwait, ha]
      rw [step_of_active hf ha, step_of_active (s := s.mapParts d f r) hf hactive,
        h.resume_mapParts]
      rfl
    | false =>
      have hactive : (s.mapParts d f r).machine.wait.active = false := by rw [hwait, ha]
      rw [step_of_not_active hf ha, step_of_not_active (s := s.mapParts d f r) hf hactive]
      exact h.cycle_mapParts (hcycle (status_eq_ready_iff.mpr ⟨hf, ha⟩))

/-- A session in changed surroundings. -/
def change (s : Session) (c : Change) : Session :=
  { s with dialect := c.dialect s.dialect, machine := s.machine.change c }

/-- A change of the surroundings is not noticed by a session. -/
theorem unnoticed_change (s : Session) (c : Change) : s.Unnoticed (·.change c) id where
  wait m := m.wait_change c
  pc _ := rfl
  resume m := m.resume_change c
  record _ _ := rfl

/-- A change can come before a step or after it unless the step carries out an instruction that
notices it. -/
theorem step_change (h : ∀ i, s.Executes i → ¬ s.machine.Notices c i) :
    (s.change c).step = Prod.map id (·.change c) s.step := by
  refine (s.unnoticed_change c).step_mapParts (d := c.dialect) fun hready => ?_
  refine Machine.cycle_change fun i outcome hat hok => ?_
  obtain ⟨hf, ha⟩ := status_eq_ready_iff.mp hready
  obtain ⟨journal, he⟩ := step_of_cycle_ok hf ha hok
  exact h i ⟨hready, hat, _, congrArg Prod.fst he⟩

end Chip8.Session
