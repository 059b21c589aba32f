import Chip8.Proofs.Machine.Hearing
import Chip8.Proofs.Session.Surroundings

/-!
# Requests that commute

A signal is a tick or a key event. A signal and a step can be made in either order unless the step
has to do with the timer or the key that the signal changes. Ticks and key events can always be
made in either order, and so can the events of two keys unless both go down and the session waits
for one of them.
-/

namespace Chip8

/-- Whether a request is a signal. -/
def Request.isSignal : Request → Bool
  | tick | key _ _ => true
  | _ => false

namespace Session

variable {s : Session} {r r' : Request} {i : Instruction}

/-- Two requests can be made in either order: this changes neither their answers nor the session
that they lead to. -/
structure Commutes (s : Session) (r r' : Request) : Prop where
  answer : ((s.perform r').session.perform r).answer = (s.perform r).answer
  answer' : ((s.perform r).session.perform r').answer = (s.perform r').answer
  session : ((s.perform r).session.perform r').session = ((s.perform r').session.perform r).session

/-- The next step of a session has to do with what a signal changes. For a tick, it reads or sets a
timer. For a key event, it is part of a key wait or begins one, or it looks at that very key. -/
def Heeds (s : Session) : Request → Prop
  | .tick => ∃ i, s.Executes i ∧ (i.op = .getDelay ∨ i.op = .setDelay ∨ i.op = .setSound)
  | .key number _ =>
    s.machine.wait.active = true ∨
      ∃ i, s.Executes i ∧ (i.op = .awaitKey ∨ (i.op = .skip .keyDown ∨ i.op = .skip .keyUp) ∧
        Keypad.key? number = some (s.machine.selectedKey i.x))
  | _ => False

theorem exists_executes_iff {p : Instruction → Prop} :
    (∃ i, s.Executes i ∧ p i) ↔ ∃ i ∈ s.executed?, p i := by
  simp only [Option.mem_def, executed?_eq_some_iff]

instance (s : Session) (r : Request) : Decidable (s.Heeds r) :=
  match r with
  | .tick => decidable_of_iff' _ exists_executes_iff
  | .key _ _ => @instDecidableOr _ _ _ (decidable_of_iff' _ exists_executes_iff)
  | .step | .run _ _ | .frame _ | .load _ | .reset => isFalse id

/-- A signal reaches the keypad, the timers and the key that is latched. -/
theorem session_of_isSignal (hr : r.isSignal = true) (s : Session) :
    ∃ keypad delay sound latched, (s.perform r).session = { s with machine :=
      { s.machine with keypad, delay, sound, wait := { s.machine.wait with latched } } } := by
  cases r with
  | tick => exact ⟨_, _, _, s.machine.wait.latched, rfl⟩
  | key number isDown =>
    change ∃ keypad delay sound latched, (s.setKey number isDown).2 = _
    rcases s.setKey_cases number isDown with ⟨-, he⟩ | ⟨k, -, he⟩
    · rw [he]
      exact ⟨_, _, _, s.machine.wait.latched, rfl⟩
    · have hwait : ∃ latched, (s.machine.setKey k isDown).wait =
          { s.machine.wait with latched } := by
        rw [Machine.wait_setKey]
        split
        · exact ⟨_, rfl⟩
        · exact ⟨s.machine.wait.latched, rfl⟩
      obtain ⟨latched, hlatched⟩ := hwait
      refine ⟨s.machine.keypad.set k isDown, s.machine.delay, s.machine.sound, latched, ?_⟩
      rw [he, ← hlatched]
      rfl
  | _ => cases hr

/-- A signal is answered alike in all sessions. -/
theorem answer_of_isSignal (hr : r.isSignal = true) (s t : Session) :
    (s.perform r).answer = (t.perform r).answer := by
  cases r with
  | tick => rfl
  | key number isDown =>
    simp only [perform, respond, setKey]
    cases Keypad.key? number with
    | none => rfl
    | some k => rfl
  | _ => cases hr

/-- An instruction that succeeds where a ready session stands is what its step carries out. -/
theorem executes_of_perform {n : Machine} (hready : s.status = .ready) (hi : s.machine.StandsAt i)
    (hn : { s.machine with pc := s.machine.pc + 2 }.perform i = .ok n) : s.Executes i := by
  obtain ⟨hf, ha⟩ := status_eq_ready_iff.mp hready
  have hc := Machine.cycle_eq_ok_iff.mpr ⟨i.word, n, hi.1, hi.2, hn, rfl⟩
  obtain ⟨journal, he⟩ := step_of_cycle_ok hf ha hc
  exact ⟨hready, hi, _, congrArg Prod.fst he⟩

/-- An instruction that has to do with timers or keys is carried out wherever a ready session
stands at it. -/
theorem executes_iff_of_listens (h : i.op.listens = true) :
    s.Executes i ↔ s.status = .ready ∧ s.machine.StandsAt i := by
  constructor
  · rintro ⟨hready, hi, -⟩
    exact ⟨hready, hi⟩
  · rintro ⟨hready, hi⟩
    obtain ⟨n, hn⟩ := Machine.perform_ok_of_listens h { s.machine with pc := s.machine.pc + 2 }
    exact executes_of_perform hready hi hn

/-- Signals do not change which signals the next step has to do with. -/
theorem heeds_after_signal (hr : r.isSignal = true) :
    (s.perform r).session.Heeds r' ↔ s.Heeds r' := by
  obtain ⟨keypad, delay, sound, latched, he⟩ := session_of_isSignal hr s
  have hexecutes (i : Instruction) (h : i.op.listens = true) :
      (s.perform r).session.Executes i ↔ s.Executes i := by
    rw [executes_iff_of_listens h, executes_iff_of_listens h, he]
    rfl
  cases r' with
  | tick =>
    refine exists_congr fun i => and_congr_left fun hop => hexecutes i ?_
    rcases hop with hop | hop | hop <;> rw [hop] <;> rfl
  | key number isDown =>
    have hactive : (s.perform r).session.machine.wait.active = s.machine.wait.active := by rw [he]
    have hselected (i : Instruction) : (s.perform r).session.machine.selectedKey i.x =
        s.machine.selectedKey i.x := by
      rw [he]
      rfl
    simp only [Heeds, hactive, hselected]
    refine or_congr_right (exists_congr fun i => and_congr_left fun hop => hexecutes i ?_)
    rcases hop with hop | ⟨hop | hop, -⟩ <;> rw [hop] <;> rfl
  | _ => rfl

/-- A session that awaits no key awaits none after a step that does not begin a key wait. -/
theorem active_step (ha : s.machine.wait.active = false)
    (h : ∀ i, s.Executes i → i.op ≠ .awaitKey) : s.step.2.machine.wait.active = false := by
  rcases s.machine_step_cases with he | ⟨key, hactive, -, -⟩ | ⟨op, hf, ha, hc⟩
  · rw [he]
    exact ha
  · rw [ha] at hactive
    cases hactive
  · obtain ⟨word, n, hexecutes, hn, he⟩ := executes_of_cycle hf ha hc
    have hwait : n.wait = s.machine.wait := (Machine.frame_of_perform hn).wait (h _ hexecutes)
    rw [he]
    exact (congrArg KeyWait.active hwait).trans ha

/-- A key event only changes the surroundings of a program that awaits no key. -/
theorem setKey_eq_change {number : Int} {k : Fin keyCount} (ha : s.machine.wait.active = false)
    (hk : Keypad.key? number = some k) (isDown : Bool) :
    s.setKey number isDown = (.ok (), s.change (.key k isDown)) := by
  simp only [setKey, hk, Machine.setKey_eq_change (KeyWait.blocked_of_not_active ha) k isDown]
  rfl

/-- A signal can come before a step or after it if the step has nothing to do with it. -/
theorem step_after_signal (hr : r.isSignal = true) (h : ¬ s.Heeds r) :
    (s.perform r).session.step = (s.step.1, (s.step.2.perform r).session) := by
  cases r with
  | tick =>
    have htick : ∀ i, s.Executes i → ¬ s.machine.Notices .tick i := fun i hi hnotices =>
      h ⟨i, hi, Machine.op_of_notices_tick hnotices⟩
    exact step_change htick
  | key number isDown =>
    change (s.setKey number isDown).2.step = (s.step.1, (s.step.2.setKey number isDown).2)
    obtain ⟨ha, hlooks⟩ := not_or.mp h
    cases hk : Keypad.key? number with
    | none => simp only [setKey, hk]
    | some k =>
      have hbegins : ∀ i, s.Executes i → i.op ≠ .awaitKey := fun i hi hop =>
        hlooks ⟨i, hi, Or.inl hop⟩
      have hkey : ∀ i, s.Executes i → ¬ s.machine.Notices (.key k isDown) i := by
        intro i hi hnotices
        obtain ⟨hop, rfl⟩ := Machine.op_of_notices_key hnotices
        exact hlooks ⟨i, hi, Or.inr ⟨hop, hk⟩⟩
      have hawaits := Bool.eq_false_iff.mpr ha
      rw [setKey_eq_change hawaits hk, setKey_eq_change (active_step hawaits hbegins) hk]
      exact step_change hkey
  | _ => cases hr

/-- A signal and a step that has nothing to do with it commute. -/
theorem commutes_step (hr : r.isSignal = true) (h : ¬ s.Heeds r) : s.Commutes r .step := by
  have hstep := step_after_signal hr h
  exact {
    answer := answer_of_isSignal hr _ _
    answer' := congrArg (fun outcome => outcome.1.map Answer.changed) hstep
    session := congrArg Prod.snd hstep }

/-- Ticks and key events commute. -/
theorem commutes_tick_key (s : Session) (number : Int) (isDown : Bool) :
    s.Commutes .tick (.key number isDown) where
  answer := rfl
  answer' := answer_of_isSignal rfl _ _
  session := by
    change (s.tick.setKey number isDown).2 = (s.setKey number isDown).2.tick
    unfold setKey
    cases Keypad.key? number with
    | none => rfl
    | some k => rfl

/-- Events of two keys commute exactly if the session does not wait for one of two keys that both go
down. -/
theorem commutes_keys_iff {number number' : Int} {k k' : Fin keyCount} {isDown isDown' : Bool}
    (hk : Keypad.key? number = some k) (hk' : Keypad.key? number' = some k') (hne : k ≠ k') :
    s.Commutes (.key number isDown) (.key number' isDown') ↔
      ¬ (s.blocked = true ∧ (isDown = true ∧ s.machine.keypad.isDown k = false) ∧
        isDown' = true ∧ s.machine.keypad.isDown k' = false) := by
  have hsession : ((s.setKey number isDown).2.setKey number' isDown').2 =
        ((s.setKey number' isDown').2.setKey number isDown).2 ↔
      (s.machine.setKey k isDown).setKey k' isDown' =
        (s.machine.setKey k' isDown').setKey k isDown := by
    simp only [setKey, hk, hk']
    exact ⟨congrArg Session.machine, fun he => by rw [he]⟩
  constructor
  · rintro hcommutes ⟨hb, ⟨rfl, hup⟩, rfl, hup'⟩
    exact Machine.setKey_ne_of_blocked hne hb hup hup' (hsession.mp hcommutes.session)
  · intro h
    exact {
      answer := answer_of_isSignal rfl _ _
      answer' := answer_of_isSignal rfl _ _
      session := hsession.mpr (Machine.setKey_comm hne h) }

end Session

end Chip8
