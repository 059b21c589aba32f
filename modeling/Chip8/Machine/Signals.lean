import Chip8.Machine

/-!
# Signals from outside

What reaches a machine between its instructions: the ticks of the timer clock, keys that go down
and up, and the completion of a key wait.
-/

namespace Chip8

/-- A timer one tick later; it stops at zero. -/
def countDown (timer : UInt8) : UInt8 := if timer = 0 then 0 else timer - 1

theorem toNat_countDown (timer : UInt8) : (countDown timer).toNat = timer.toNat - 1 := by
  unfold countDown
  split
  · next h => simp [h]
  · next h =>
    have hpos : 1 ≤ timer := by
      rw [UInt8.le_iff_toNat_le]
      have hne : timer.toNat ≠ 0 := fun h0 => h (UInt8.toNat_inj.1 (by simpa using h0))
      simpa using Nat.one_le_iff_ne_zero.2 hne
    rw [UInt8.toNat_sub_of_le _ _ hpos]
    rfl

namespace Machine

/-- Both timers one tick later. -/
def tick (m : Machine) : Machine :=
  { m with delay := countDown m.delay, sound := countDown m.sound }

/-- Record that a key is down or up. A key that goes down is offered to the key wait; one that
was down already is not. -/
def setKey (m : Machine) (k : Fin keyCount) (isDown : Bool) : Machine :=
  { m with
    keypad := m.keypad.set k isDown
    wait := if isDown && !m.keypad.isDown k then m.wait.offer k else m.wait }

/-- Complete a key wait whose key has come: store the key and go past the instruction. -/
def resume (m : Machine) : Machine :=
  if m.wait.active then
    match m.wait.latched with
    | none => m
    | some k =>
      { m.setRegister m.wait.register (UInt8.ofNat k) with
        pc := m.pc + 2
        wait := { m.wait with active := false, latched := none } }
  else m

end Machine

end Chip8
