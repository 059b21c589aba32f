import Chip8.Proofs.Session.Step

/-!
# What a session hears between its steps

Ticks and key events reach the machine of a session whether or not it can step. They leave all of
the machine alone but its timers and its keypad, unless a key goes down that the machine waits
for. A repeated key event has no effect.
-/

namespace Chip8.Session

variable {s : Session} {failure : Option Report} {m : Machine}

/-- A session that has failed, or has not, and whose machine has heard only signals since it was
in some state. -/
structure Heard (failure : Option Report) (m : Machine) (s : Session) : Prop where
  failure_eq : s.failure = failure
  machine : m.OnlySignals s.machine

theorem Heard.wait (hs : Heard failure m s) : s.machine.wait = m.wait := by
  obtain ⟨keypad, delay, sound, he⟩ := hs.machine
  rw [he]

theorem Heard.pc (hs : Heard failure m s) : s.machine.pc = m.pc := by
  obtain ⟨keypad, delay, sound, he⟩ := hs.machine
  rw [he]

theorem Heard.blocked (hs : Heard failure m s) : s.blocked = m.wait.blocked := by
  rw [Session.blocked, hs.wait]

theorem Heard.tick (hs : Heard failure m s) : Heard failure m s.tick :=
  ⟨hs.failure_eq, hs.machine.trans (Machine.onlySignals_tick _)⟩

/-- A key event reaches the keypad alone, unless a key goes down that the machine waits for. -/
theorem Heard.setKey (hs : Heard failure m s) {number : Int} {isDown : Bool}
    (h : ∀ key, Keypad.key? number = some key → isDown = true →
      s.machine.keypad.isDown key = false → m.wait.blocked = false) :
    Heard failure m (s.setKey number isDown).2 := by
  rcases s.setKey_cases number isDown with ⟨-, he⟩ | ⟨key, hkey, he⟩
  · rw [he]
    exact hs
  · rw [he]
    refine ⟨hs.failure_eq, hs.machine.trans (Machine.onlySignals_setKey fun hdown hup => ?_)⟩
    rw [hs.wait]
    exact h key hkey hdown hup

/-- A key event has no effect when it is repeated. -/
theorem setKey_setKey (s : Session) (number : Int) (isDown : Bool) :
    (s.setKey number isDown).2.setKey number isDown = s.setKey number isDown := by
  rcases s.setKey_cases number isDown with ⟨-, he⟩ | ⟨key, hkey, he⟩
  · rw [he]
    exact he
  · rw [he]
    simp only [Session.setKey, hkey, Machine.setKey_setKey]

end Chip8.Session
