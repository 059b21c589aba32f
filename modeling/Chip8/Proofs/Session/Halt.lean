import Chip8.Proofs.Machine.Cycle
import Chip8.Proofs.Session.Create
import Chip8.Proofs.Session.Run
import Chip8.Proofs.Session.Signals

/-!
# Halted sessions

A step that fails leaves the machine as it was and halts the session with a report of the failing
instruction. From then on every step is refused with that report, and only ticks and key events
still reach the machine, until a program is loaded.
-/

namespace Chip8.Session

variable {s : Session} {report : Report} {m : Machine}

/-- In a session that has failed, nothing reaches a machine that does not wait but signals. -/
theorem kept_heard_of_failure (hm : m.wait.active = false) : Kept (Heard (some report) m) where
  journal _ _ hs := ⟨hs.failure_eq, hs.machine⟩
  step s hs := by
    rw [step_of_failure hs.failure_eq]
    exact hs
  tick _ hs := hs.tick
  key _ number isDown hs := hs.setKey fun _ _ _ _ => KeyWait.blocked_of_not_active hm

/-- What a host can rely on in a session that halted with a report in some state of its machine. -/
structure Refuses (report : Report) (m : Machine) (s : Session) : Prop where
  /-- The session counts as halted. -/
  status : s.status = .halted
  /-- The report is kept. -/
  failure : s.failure = some report
  /-- A step is refused because of the report. -/
  step : s.step = (.error (.refusal report), s)
  /-- So is a run of at least one step. -/
  run : ∀ limit withBar, 0 < limit → (s.run limit withBar).result = .error (.refusal report)
  /-- So is a frame of at least one step. -/
  frame : ∀ count, 0 < count → (s.frame count).1 = .error (.refusal report)
  /-- Only the keypad and the timers have changed. -/
  machine : m.OnlySignals s.machine

theorem Heard.refuses (hs : Heard (some report) m s) (hm : m.wait.active = false) :
    s.Refuses report m where
  status := by simp [Session.status, hs.failure_eq]
  failure := hs.failure_eq
  step := step_of_failure hs.failure_eq
  run limit withBar hlimit := by
    obtain ⟨budget, hbudget, -⟩ := exists_toNat_eq_succ hlimit
    have hblocked := hs.blocked.trans (KeyWait.blocked_of_not_active hm)
    simp only [Session.run, hbudget]
    rw [runFrom_of_step_error hblocked (step_of_failure hs.failure_eq)]
  frame count hcount := by
    obtain ⟨budget, hbudget, -⟩ := exists_toNat_eq_succ hcount
    have hblocked := hs.tick.blocked.trans (KeyWait.blocked_of_not_active hm)
    rw [Session.frame, hbudget,
      stepUpTo_of_step_error hblocked (step_of_failure hs.tick.failure_eq)]
  machine := hs.machine

/-- A failed instruction changes nothing in the machine and is reported where it stands, with its
word exactly if that could be read. The session then refuses to go on, whatever is asked of it
apart from a load or reset that succeeds. -/
theorem refuses_after_failed_step (hr : s.status = .ready)
    (he : s.step.1 = .error (.execution report)) :
    s.step.2.machine = s.machine ∧
      (∃ opcode, report.site = some ⟨s.machine.pc.toNat, opcode, s.machine.cycles⟩ ∧
        (opcode = none ↔ ∃ fault, s.machine.fetch = .error fault) ∧
        ∀ word fetched, s.machine.fetch = .ok (word, fetched) →
          opcode = some (word.toNat : Int)) ∧
      ∀ history, Unbroken s.step.2 history →
        (s.step.2.after history).Refuses report s.machine := by
  obtain ⟨hf, ha⟩ := status_eq_ready_iff.mp hr
  cases hc : s.machine.cycle with
  | ok outcome =>
    obtain ⟨op, next⟩ := outcome
    obtain ⟨journal, hs⟩ := step_of_cycle_ok hf ha hc
    rw [hs] at he
    cases he
  | error reported =>
    obtain ⟨journal, hs⟩ := step_of_cycle_error hf ha hc
    rw [hs] at he ⊢
    obtain rfl : reported = report := by simpa using he
    refine ⟨rfl, ?_, fun history hu => ?_⟩
    · rcases Machine.report_of_cycle hc with ⟨fault, hfetch, rfl⟩ |
        ⟨word, fetched, fault, hfetch, -, rfl⟩
      · exact ⟨none, rfl, ⟨fun _ => ⟨fault, hfetch⟩, fun _ => rfl⟩, by simp [hfetch]⟩
      · exact ⟨some (word.toNat : Int), rfl, by simp [hfetch], by simp +contextual [hfetch]⟩
    · have hstart : Heard (some reported) s.machine
          { s with failure := some reported, journal } := ⟨rfl, .refl _⟩
      exact ((kept_heard_of_failure ha).after_of_unbroken hstart hu).refuses ha

/-- A program that returns without a call halts at its first instruction. -/
theorem refuses_after_return_without_call :
    ∃ s, s = (create (some [0x00, 0xEE]) .cosmac ⟨0, 0⟩ (.start "chip8" .warning)).2 ∧
      s.status = .ready ∧
      s.step.1 = .error (.execution ⟨.stackUnderflow, s.machine.site (some 0x00EE)⟩) ∧
      ∀ history, Unbroken s.step.2 history →
        (s.step.2.after history).Refuses ⟨.stackUnderflow, s.machine.site (some 0x00EE)⟩
          s.machine := by
  obtain ⟨s, hs⟩ : ∃ s, s = (create (some [0x00, 0xEE]) .cosmac ⟨0, 0⟩
    (.start "chip8" .warning)).2 := ⟨_, rfl⟩
  have hready : s.status = .ready := hs ▸ status_create (by decide)
  have hword : s.machine.memory.readWord s.machine.pc.toNat = .ok 0x00EE :=
    hs ▸ readWord_create (by decide)
  have hpop : s.machine.stack.pop = .error .stackUnderflow := by
    rw [hs, machine_create (by decide)]
    rfl
  have hc : s.machine.cycle = .error ⟨.stackUnderflow, s.machine.site (some 0x00EE)⟩ := by
    simp only [Machine.cycle, Machine.fetch_eq_ok_iff.mpr ⟨hword, rfl⟩, Machine.perform,
      Machine.ret, hpop]
    rfl
  obtain ⟨hf, ha⟩ := status_eq_ready_iff.mp hready
  obtain ⟨journal, he⟩ := step_of_cycle_error hf ha hc
  have hfirst := congrArg Prod.fst he
  exact ⟨s, hs, hready, hfirst, (refuses_after_failed_step hready hfirst).2.2⟩

end Chip8.Session
