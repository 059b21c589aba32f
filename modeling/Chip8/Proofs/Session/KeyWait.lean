import Chip8.Proofs.Machine.Sound
import Chip8.Proofs.Session.Create
import Chip8.Proofs.Session.Run
import Chip8.Proofs.Session.Signals

/-!
# The key wait protocol

A session at a key wait blocks until a key goes down that was up. Until then no request makes a
step, and ticks and key events reach only the timers and the keypad. The first key that goes down
is latched, whatever happens to the keypad afterwards, and the next step completes the wait with
that key and does nothing else.
-/

namespace Chip8

/-- Whether a request makes no step, whatever the session. -/
def Request.stepless : Request → Bool
  | .run limit _ => decide (limit ≤ 0)
  | .frame count => decide (count ≤ 0)
  | .tick | .key _ _ => true
  | _ => false

namespace Session

variable {s t : Session} {m : Machine} {request : Request} {key : Fin keyCount}
  {x : Fin registerCount}

/-- What remains of a request that makes no step: its tick or its key event. -/
def heard (s : Session) : Request → Session
  | .tick | .frame _ => s.tick
  | .key number isDown => (s.setKey number isDown).2
  | _ => s

theorem session_perform_of_stepless (h : request.stepless = true) :
    (s.perform request).session = s.heard request := by
  cases request with
  | run limit withBar =>
    have hlimit : limit.toNat = 0 := Int.toNat_of_nonpos (of_decide_eq_true h)
    simp only [perform, run, hlimit, runFrom, heard]
  | frame count =>
    have hcount : count.toNat = 0 := Int.toNat_of_nonpos (of_decide_eq_true h)
    simp only [perform, respond, frame, hcount, stepUpTo, heard]
  | tick | key number isDown => rfl
  | _ => cases h

/-- A blocked session makes no step, whatever is asked of it. -/
theorem session_perform_of_blocked (hf : s.failure = none) (hb : s.blocked = true)
    (hr : request.restarts = false) : (s.perform request).session = s.heard request := by
  have htick : s.tick.blocked = true := hb
  cases request with
  | step => simp only [perform, respond, step_of_blocked hf hb, heard]
  | run limit withBar => simp only [perform, run, runFrom_of_blocked hb, heard]
  | frame count => simp only [perform, respond, frame, stepUpTo_of_blocked htick, heard]
  | tick | key number isDown => rfl
  | _ => cases hr

/-- The key that a request makes go down, if that key was up. -/
def pressed? (s : Session) : Request → Option (Fin keyCount)
  | .key number true => (Keypad.key? number).filter fun key => !s.machine.keypad.isDown key
  | _ => none

theorem pressed?_eq_some_iff :
    s.pressed? request = some key ↔
      (∃ number, request = .key number true ∧ Keypad.key? number = some key) ∧
        s.machine.keypad.isDown key = false := by
  unfold pressed?
  split
  · next number =>
    simp only [Option.filter_eq_some_iff, Bool.not_eq_true', Request.key.injEq, and_true,
      exists_eq_left']
  · next hnot =>
    simp only [reduceCtorEq, false_iff, not_and]
    rintro ⟨number, rfl, -⟩
    exact absurd rfl (hnot number)

/-- What a session hears leaves its machine alone, unless a key goes down that it waits for. -/
theorem Heard.heard (hs : Heard none m s)
    (h : s.pressed? request ≠ none → m.wait.blocked = false) :
    Heard none m (s.heard request) := by
  cases request with
  | tick | frame count => exact hs.tick
  | key number isDown =>
    refine hs.setKey ?_
    rintro key hkey rfl hup
    have hpressed : s.pressed? (.key number true) = some key :=
      pressed?_eq_some_iff.mpr ⟨⟨number, rfl, hkey⟩, hup⟩
    refine h ?_
    rw [hpressed]
    exact Option.some_ne_none key
  | _ => exact hs

/-- Only its own release makes a key go up. -/
theorem isDown_heard (hd : s.machine.keypad.isDown key = true)
    (hr : ∀ number, Keypad.key? number = some key → request ≠ .key number false) :
    (s.heard request).machine.keypad.isDown key = true := by
  cases request with
  | key number isDown =>
    change (s.setKey number isDown).2.machine.keypad.isDown key = true
    rcases s.setKey_cases number isDown with ⟨-, he⟩ | ⟨k, hk, he⟩
    · rw [he]
      exact hd
    · rw [he]
      simp only [Machine.setKey, Keypad.isDown_set]
      by_cases hkey : k = key
      · subst hkey
        cases isDown with
        | true => simp
        | false => exact absurd rfl (hr number hk)
      · rw [if_neg hkey]
        exact hd
  | _ => exact hd

/-- A history that does not start over and in which no key goes down that was up. -/
def Quiet : Session → List Request → Prop
  | _, [] => True
  | s, request :: rest =>
    request.restarts = false ∧ s.pressed? request = none ∧ Quiet (s.perform request).session rest

/-- While no key goes down, a blocked session only hears what is asked of it. -/
theorem Heard.perform (hs : Heard none m s) (hb : m.wait.blocked = true)
    (hr : request.restarts = false) (hp : s.pressed? request = none) :
    (s.perform request).session = s.heard request ∧ Heard none m (s.heard request) := by
  have hblocked : s.blocked = true := hs.blocked.trans hb
  exact ⟨session_perform_of_blocked hs.failure_eq hblocked hr, hs.heard fun h => absurd hp h⟩

/-- A blocked session stays as it is along a quiet history, apart from what it hears. -/
theorem Heard.after_quiet (hs : Heard none m s) (hb : m.wait.blocked = true) {history : List Request}
    (hq : Quiet s history) : Heard none m (s.after history) := by
  induction history generalizing s with
  | nil => exact hs
  | cons request rest ih =>
    obtain ⟨hr, hp, hrest⟩ := hq
    obtain ⟨he, hone⟩ := hs.perform hb hr hp
    rw [← he] at hone
    exact ih hone hrest

/-- Along a quiet history a key of a blocked session goes up only by its release. -/
theorem Heard.released_of_quiet (hs : Heard none m s) (hb : m.wait.blocked = true)
    {history : List Request} (hq : Quiet s history) (hd : s.machine.keypad.isDown key = true)
    (hu : (s.after history).machine.keypad.isDown key = false) :
    ∃ number, Keypad.key? number = some key ∧ .key number false ∈ history := by
  induction history generalizing s with
  | nil =>
    change s.machine.keypad.isDown key = false at hu
    rw [hd] at hu
    cases hu
  | cons request rest ih =>
    -- Either this request is the release or the key is still down after it.
    by_cases hrelease : ∃ number, Keypad.key? number = some key ∧ request = .key number false
    · obtain ⟨number, hkey, rfl⟩ := hrelease
      exact ⟨number, hkey, List.mem_cons_self⟩
    · obtain ⟨hr, hp, hrest⟩ := hq
      obtain ⟨he, hone⟩ := hs.perform hb hr hp
      have hdown : (s.heard request).machine.keypad.isDown key = true :=
        isDown_heard hd fun number hkey heq => hrelease ⟨number, hkey, heq⟩
      rw [← he] at hone hdown
      obtain ⟨number, hkey, hmem⟩ := ih hone hrest hdown hu
      exact ⟨number, hkey, List.mem_cons_of_mem request hmem⟩

/-- The key that goes down in a blocked session is latched. -/
theorem Heard.pressed (hs : Heard none m s) (hb : m.wait.blocked = true)
    (hp : s.pressed? request = some key) :
    Heard none { m with wait := { m.wait with latched := some key } } (s.perform request).session := by
  obtain ⟨⟨number, rfl, hkey⟩, hup⟩ := pressed?_eq_some_iff.mp hp
  have hblocked : s.machine.wait.blocked = true := by rw [hs.wait, hb]
  obtain ⟨keypad, delay, sound, he⟩ := hs.machine
  refine ⟨?_, s.machine.keypad.set key true, delay, sound, ?_⟩
  · simp only [Session.perform, respond, Session.setKey, hkey, hs.failure_eq]
  · simp only [Session.perform, respond, Session.setKey, hkey, Machine.setKey_of_blocked hup hblocked]
    rw [he]

/-- A session whose wait has its key stays as it is, apart from what it hears, until a step is
made. -/
theorem Heard.after_stepless (hs : Heard none m s) (hb : m.wait.blocked = false)
    {history : List Request} (hl : ∀ request ∈ history, request.stepless = true) :
    Heard none m (s.after history) := by
  induction history generalizing s with
  | nil => exact hs
  | cons request rest ih =>
    obtain ⟨hfirst, hrest⟩ := List.forall_mem_cons.mp hl
    have hone : Heard none m (s.perform request).session := by
      rw [session_perform_of_stepless hfirst]
      exact hs.heard fun _ => hb
    exact ih hone hrest

/-- What a host can rely on in a session that waits for a key in some state of its machine. -/
structure Waits (m : Machine) (s : Session) : Prop where
  /-- A step does nothing. -/
  step : s.step = (.ok false, s)
  /-- A run does nothing. -/
  run : ∀ limit withBar, (s.run limit withBar).result = .ok 0 ∧
    (s.run limit withBar).session = s
  /-- A frame does nothing but tick. -/
  frame : ∀ count, s.frame count = (.ok false, s.tick)
  /-- Only the keypad and the timers have changed. -/
  machine : m.OnlySignals s.machine

/-- What a host can rely on in a session that waited in some state of its machine on behalf of a
register, and whose key has come. -/
structure Completes (m : Machine) (x : Fin registerCount) (key : Fin keyCount) (s : Session) :
    Prop where
  /-- The key is latched and otherwise only the keypad and the timers have changed. -/
  machine : Machine.OnlySignals { m with wait := ⟨true, x, some key⟩ } s.machine
  /-- A step stores the key, goes past the instruction and ends the wait, and nothing else. -/
  step : ∃ journal, s.step = (.ok false, { s with
    machine := { s.machine.setRegister x (UInt8.ofNat key) with
      pc := m.pc + 2
      wait := ⟨false, x, none⟩ }
    journal })
  /-- A run of at least one step begins with this step. -/
  run : ∀ limit withBar, 0 < limit →
    (s.run limit withBar).result = (s.step.2.run (limit - 1) withBar).result.map (· + 1) ∧
      ∃ journal, (s.run limit withBar).session =
        { (s.step.2.run (limit - 1) withBar).session with journal }
  /-- A frame of at least one step ticks and then begins with this step. -/
  frame : ∀ count, 0 < count →
    s.frame count = s.tick.step.2.stepUpTo false (count - 1).toNat

theorem Heard.waits (hs : Heard none m s) (hb : m.wait.blocked = true) : s.Waits m := by
  have hblocked : s.blocked = true := hs.blocked.trans hb
  have htick : s.tick.blocked = true := hblocked
  refine ⟨step_of_blocked hs.failure_eq hblocked, fun limit withBar => ?_, fun count => ?_, hs.machine⟩
  · simp only [Session.run, runFrom_of_blocked hblocked, and_self]
  · rw [Session.frame, stepUpTo_of_blocked htick]

/-- The step that completes a key wait. -/
theorem Heard.step_of_latched (hs : Heard none m s) (hm : m.wait = ⟨true, x, some key⟩) :
    ∃ journal, s.step = (.ok false, { s with
      machine := { s.machine.setRegister x (UInt8.ofNat key) with
        pc := m.pc + 2
        wait := ⟨false, x, none⟩ }
      journal }) := by
  have hwait : s.machine.wait = ⟨true, x, some key⟩ := hs.wait.trans hm
  have ha : s.machine.wait.active = true := by rw [hwait]
  have hk : s.machine.wait.latched = some key := by rw [hwait]
  obtain ⟨journal, he⟩ := Session.step_of_latched hs.failure_eq ha hk
  refine ⟨journal, ?_⟩
  simp only [he, Machine.resume_of_latched ha hk, hs.pc, hwait]

theorem Heard.completes (hs : Heard none { m with wait := ⟨true, x, some key⟩ } s) :
    s.Completes m x key := by
  have hblocked : s.blocked = false := hs.blocked
  have htick : s.tick.blocked = false := hblocked
  have hstep := hs.step_of_latched rfl
  refine ⟨hs.machine, hstep, fun limit withBar hlimit => ?_, fun count hcount => ?_⟩
  · obtain ⟨budget, hbudget, hless⟩ := exists_toNat_eq_succ hlimit
    obtain ⟨journal, he⟩ := hstep
    have hok : s.step = (.ok false, s.step.2) := by rw [he]
    have hmoved : stayed s s.step.2 = false := by simp only [stayed, hs.wait]; rfl
    simp only [Session.run, hbudget, hless, runFrom_of_moved hblocked hok hmoved]
    exact runFrom_add s.step.2 _ _ 0 1 budget
  · obtain ⟨budget, hbudget, hless⟩ := exists_toNat_eq_succ hcount
    obtain ⟨journal, he⟩ := hs.tick.step_of_latched rfl
    rw [Session.frame, hbudget, hless, stepUpTo_of_step_ok htick he, he]
    rfl

/-- The key wait protocol. The instruction blocks the session where it stands. While no key goes
down that was up, nothing happens but ticks and key events. The first key that does go down is
latched; one that was held already has been released before. Whatever is heard from then on, the
next step completes the wait with that key. No key event has an effect when it is repeated. -/
theorem keyWait_protocol (hr : s.status = .ready) (hat : s.machine.AtKeyWait x) :
    s.step.1 = .ok false ∧
      s.step.2.machine =
        { s.machine with wait := .start x, cycles := s.machine.cycles + 1 } ∧
      (∀ history, Quiet s.step.2 history →
        (s.step.2.after history).Waits s.step.2.machine ∧
          ∀ press key, (s.step.2.after history).pressed? press = some key →
            (s.machine.keypad.isDown key = true →
              ∃ number, Keypad.key? number = some key ∧ .key number false ∈ history) ∧
            ∀ later, (∀ request ∈ later, request.stepless = true) →
              (s.step.2.after (history ++ press :: later)).Completes s.step.2.machine x key) ∧
      ∀ (t : Session) number isDown,
        (t.setKey number isDown).2.setKey number isDown = t.setKey number isDown := by
  obtain ⟨hf, ha⟩ := status_eq_ready_iff.mp hr
  obtain ⟨journal, he⟩ := step_of_cycle_ok hf ha hat.cycle
  have hmachine : s.step.2.machine =
      { s.machine with wait := .start x, cycles := s.machine.cycles + 1 } := by rw [he]
  have hstart : Heard none s.step.2.machine s.step.2 := ⟨by rw [he]; exact hf, .refl _⟩
  have hb : s.step.2.machine.wait.blocked = true := by rw [hmachine, KeyWait.blocked_start]
  refine ⟨by rw [he]; rfl, hmachine, fun history hq => ?_, setKey_setKey⟩
  have hquiet := hstart.after_quiet hb hq
  refine ⟨hquiet.waits hb, fun press key hp => ⟨fun hd => ?_, fun later hl => ?_⟩⟩
  · have hup := (pressed?_eq_some_iff.mp hp).2
    refine hstart.released_of_quiet hb hq ?_ hup
    rw [hmachine]
    exact hd
  · have hpressed := hquiet.pressed hb hp
    have hlatched : { s.step.2.machine.wait with latched := some key } =
        (⟨true, x, some key⟩ : KeyWait) := by rw [hmachine]; rfl
    rw [hlatched] at hpressed
    rw [after_append_cons]
    exact (hpressed.after_stepless rfl hl).completes

/-- A tap on a key completes the wait of a program that begins with one. -/
theorem completes_after_tap :
    ∃ s, s = (create (some [0xF3, 0x0A]) .cosmac ⟨0, 0⟩ (.start "chip8" .warning)).2 ∧
      s.status = .ready ∧ s.machine.AtKeyWait 3 ∧
      (s.step.2.after [.key 5 true, .key 5 false, .tick]).Completes s.step.2.machine 3 5 := by
  obtain ⟨s, hs⟩ : ∃ s, s = (create (some [0xF3, 0x0A]) .cosmac ⟨0, 0⟩
    (.start "chip8" .warning)).2 := ⟨_, rfl⟩
  have hready : s.status = .ready := hs ▸ status_create (by decide)
  have hword : s.machine.memory.readWord s.machine.pc.toNat = .ok 0xF30A :=
    hs ▸ readWord_create (by decide)
  have hat : s.machine.AtKeyWait 3 := ⟨0xF30A, hword, rfl⟩
  obtain ⟨-, hmachine, hwaits, -⟩ := keyWait_protocol hready hat
  have hup : s.step.2.machine.keypad.isDown 5 = false := by
    rw [hmachine, hs, machine_create (by decide)]
    rfl
  have hpress : s.step.2.pressed? (.key 5 true) = some 5 :=
    pressed?_eq_some_iff.mpr ⟨⟨5, rfl, rfl⟩, hup⟩
  obtain ⟨-, hcompletes⟩ := (hwaits [] trivial).2 _ 5 hpress
  refine ⟨s, hs, hready, hat, hcompletes [.key 5 false, .tick] ?_⟩
  simp [Request.stepless]

end Session

end Chip8
