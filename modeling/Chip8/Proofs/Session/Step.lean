import Chip8.Proofs.Machine.Signals
import Chip8.Session.Request

/-!
# Cases of a session's step

A step is refused after a failure, does nothing while a key is awaited, completes a key wait whose
key has come, or runs one cycle. Each case is an equation on the step under the condition that
selects it. Entries of the journal are left open: nothing else in a session depends on them.
-/

namespace Chip8.Session

variable {s : Session}

/-- A session is ready if it has not failed and awaits no key. -/
theorem status_eq_ready_iff :
    s.status = .ready ↔ s.failure = none ∧ s.machine.wait.active = false := by
  unfold status
  cases s.failure with
  | some report => simp
  | none =>
    cases s.machine.wait.active with
    | true => simp
    | false => simp

theorem status_of_failure {report : Report} (h : s.failure = some report) : s.status = .halted := by
  simp only [status, h, Option.isSome_some, ite_true]

theorem status_of_active (h : s.failure = none) (ha : s.machine.wait.active = true) :
    s.status = .waitingForKey := by
  simp only [status, h, ha, Option.isSome_none, Bool.false_eq_true, ite_false, ite_true]

/-- After a failure every step is refused with that failure as its cause. -/
theorem step_of_failure {report : Report} (h : s.failure = some report) :
    s.step = (.error (.refusal report), s) := by
  simp only [step, h]

/-- A session completes a key wait as its machine does. -/
theorem resume_eq (s : Session) :
    ∃ journal, s.resume = { s with machine := s.machine.resume, journal } := by
  unfold resume
  cases hk : s.machine.wait.latched with
  | some key => exact ⟨_, rfl⟩
  | none =>
    have hmachine : s.machine.resume = s.machine := by simp only [Machine.resume, hk, ite_self]
    rw [hmachine]
    exact ⟨s.journal, rfl⟩

/-- While a key wait is on, a step completes it if it can. -/
theorem step_of_active (h : s.failure = none) (ha : s.machine.wait.active = true) :
    s.step = (.ok false, s.resume) := by
  simp only [step, h, ha, ite_true]

/-- Otherwise a step runs a cycle. -/
theorem step_of_not_active (h : s.failure = none) (ha : s.machine.wait.active = false) :
    s.step = s.cycle := by
  simp only [step, h, ha, Bool.false_eq_true, ite_false]

/-- A step of a blocked session does nothing. -/
theorem step_of_blocked (h : s.failure = none) (hb : s.blocked = true) :
    s.step = (.ok false, s) := by
  simp only [blocked, KeyWait.blocked, Bool.and_eq_true, Option.isNone_iff_eq_none] at hb
  simp only [step, h, hb.1, resume, hb.2, ite_true]

/-- A step after the awaited key has come completes the key wait. -/
theorem step_of_latched {key : Fin keyCount} (h : s.failure = none)
    (ha : s.machine.wait.active = true) (hk : s.machine.wait.latched = some key) :
    ∃ journal, s.step = (.ok false, { s with machine := s.machine.resume, journal }) := by
  simp only [step, h, ha, resume, hk, ite_true]
  exact ⟨_, rfl⟩

/-- Otherwise a step runs a cycle, here one that succeeds. -/
theorem step_of_cycle_ok {op : Op} {machine : Machine} (h : s.failure = none)
    (ha : s.machine.wait.active = false) (hc : s.machine.cycle = .ok (op, machine)) :
    ∃ journal, s.step = (.ok op.touchesScreen, { s with machine, journal }) := by
  simp only [step, h, ha, cycle, hc, noteWait, Bool.false_eq_true, ite_false]
  split
  · exact ⟨_, rfl⟩
  · exact ⟨_, rfl⟩

/-- Otherwise a step runs a cycle, here one that fails and halts the session. -/
theorem step_of_cycle_error {report : Report} (h : s.failure = none)
    (ha : s.machine.wait.active = false) (hc : s.machine.cycle = .error report) :
    ∃ journal,
      s.step = (.error (.execution report), { s with failure := some report, journal }) := by
  simp only [step, h, ha, cycle, hc, Bool.false_eq_true, ite_false]
  exact ⟨_, rfl⟩

/-- A step that succeeds while no key is awaited is a cycle that succeeds. -/
theorem cycle_of_step_ok {touched : Bool} (h : s.failure = none)
    (ha : s.machine.wait.active = false) (hok : s.step.1 = .ok touched) :
    ∃ op machine journal, s.machine.cycle = .ok (op, machine) ∧
      s.step = (.ok op.touchesScreen, { s with machine, journal }) := by
  cases hc : s.machine.cycle with
  | error report =>
    obtain ⟨journal, he⟩ := step_of_cycle_error h ha hc
    rw [he] at hok
    cases hok
  | ok outcome =>
    obtain ⟨op, machine⟩ := outcome
    obtain ⟨journal, he⟩ := step_of_cycle_ok h ha hc
    exact ⟨op, machine, journal, rfl, he⟩

/-- The five cases of a step. -/
theorem step_cases (s : Session) :
    (∃ report, s.failure = some report ∧ s.step = (.error (.refusal report), s)) ∨
    (s.failure = none ∧ s.blocked = true ∧ s.step = (.ok false, s)) ∨
    (∃ key journal, s.failure = none ∧ s.machine.wait.active = true ∧
      s.machine.wait.latched = some key ∧
      s.step = (.ok false, { s with machine := s.machine.resume, journal })) ∨
    (∃ op machine journal, s.failure = none ∧ s.machine.wait.active = false ∧
      s.machine.cycle = .ok (op, machine) ∧
      s.step = (.ok op.touchesScreen, { s with machine, journal })) ∨
    ∃ report journal, s.failure = none ∧ s.machine.wait.active = false ∧
      s.machine.cycle = .error report ∧
      s.step = (.error (.execution report), { s with failure := some report, journal }) := by
  rcases Option.eq_none_or_eq_some s.failure with hf | ⟨report, hf⟩
  · right
    rcases Bool.eq_false_or_eq_true s.machine.wait.active with ha | ha
    · rcases Option.eq_none_or_eq_some s.machine.wait.latched with hk | ⟨key, hk⟩
      · have hb : s.blocked = true := by simp [blocked, KeyWait.blocked, ha, hk]
        exact Or.inl ⟨hf, hb, step_of_blocked hf hb⟩
      · obtain ⟨journal, he⟩ := step_of_latched hf ha hk
        exact Or.inr (Or.inl ⟨key, journal, hf, ha, hk, he⟩)
    · right
      right
      rcases hc : s.machine.cycle with report | ⟨op, machine⟩
      · obtain ⟨journal, he⟩ := step_of_cycle_error hf ha hc
        exact Or.inr ⟨report, journal, hf, ha, rfl, he⟩
      · obtain ⟨journal, he⟩ := step_of_cycle_ok hf ha hc
        exact Or.inl ⟨op, machine, journal, hf, ha, rfl, he⟩
  · exact Or.inl ⟨report, hf, step_of_failure hf⟩

/-- A step leaves the machine alone, completes a key wait or runs a cycle that succeeds. -/
theorem machine_step_cases (s : Session) :
    s.step.2.machine = s.machine ∨
    (∃ key, s.machine.wait.active = true ∧ s.machine.wait.latched = some key ∧
      s.step.2.machine = s.machine.resume) ∨
    ∃ op, s.failure = none ∧ s.machine.wait.active = false ∧
      s.machine.cycle = .ok (op, s.step.2.machine) := by
  rcases s.step_cases with ⟨report, -, he⟩ | ⟨-, -, he⟩ | ⟨key, journal, -, ha, hk, he⟩ |
    ⟨op, machine, journal, hf, ha, hc, he⟩ | ⟨report, journal, -, -, -, he⟩
  · exact Or.inl (by rw [he])
  · exact Or.inl (by rw [he])
  · exact Or.inr (Or.inl ⟨key, ha, hk, by rw [he]⟩)
  · exact Or.inr (Or.inr ⟨op, hf, ha, by rw [he]; exact hc⟩)
  · exact Or.inl (by rw [he])

/-- A key event changes only the machine, and that only if the key exists. -/
theorem setKey_cases (s : Session) (number : Int) (isDown : Bool) :
    (Keypad.key? number = none ∧ s.setKey number isDown = (.error (.noSuchKey number), s)) ∨
    ∃ key, Keypad.key? number = some key ∧
      s.setKey number isDown = (.ok (), { s with machine := s.machine.setKey key isDown }) := by
  unfold setKey
  split
  · next h => exact Or.inl ⟨h, rfl⟩
  · next key h => exact Or.inr ⟨key, h, rfl⟩

/-- A key event leaves the screen alone. -/
theorem screen_setKey (s : Session) (number : Int) (isDown : Bool) :
    (s.setKey number isDown).2.machine.screen = s.machine.screen := by
  rcases s.setKey_cases number isDown with ⟨-, he⟩ | ⟨key, -, he⟩
  · rw [he]
  · rw [he]
    rfl

/-- Loading either refuses a program that is too long and changes only the journal, or puts the
program into a fresh machine. -/
theorem load_cases (s : Session) (rom : List UInt8) :
    (s.freshMachine.loadProgram? rom = none ∧
      ∃ journal, s.load rom = (.error (.oversized rom), { s with journal })) ∨
    ∃ machine journal, s.freshMachine.loadProgram? rom = some machine ∧
      s.load rom = (.ok (), { s with machine, failure := none, rom, journal }) := by
  unfold load
  split
  · next h => exact Or.inl ⟨h, _, rfl⟩
  · next machine h => exact Or.inr ⟨machine, _, h, rfl⟩

/-- A reset loads the accepted program again; it adds an entry to the journal first. -/
theorem reset_eq (s : Session) : ∃ journal, s.reset = { s with journal }.load s.rom := ⟨_, rfl⟩

end Chip8.Session
