import Chip8.Proofs.Machine.Signals
import Chip8.Proofs.Machine.Surroundings

/-!
# Which instructions can tell a signal

Ticks and key events are changes of what surrounds a program. A tick shows only to the instructions
that read or set a timer, and a key event only to those that look at the key.
-/

namespace Chip8

namespace Change

/-- Both timers are counted down. -/
def tick : Change := ⟨id, id, countDown, countDown⟩

/-- A key goes down or up. -/
def key (k : Fin keyCount) (isDown : Bool) : Change := ⟨id, (·.set k isDown), id, id⟩

end Change

namespace Machine

variable {m : Machine} {i : Instruction}

/-- A key event only changes the surroundings of a program that awaits no key. -/
theorem setKey_eq_change (h : m.wait.blocked = false) (k : Fin keyCount) (isDown : Bool) :
    m.setKey k isDown = m.change (.key k isDown) := by
  unfold setKey
  rw [KeyWait.offer_of_not_blocked h, ite_self]
  rfl

/-- Only three operations can tell if a tick has come. -/
theorem op_of_notices_tick (h : m.Notices .tick i) :
    i.op = .getDelay ∨ i.op = .setDelay ∨ i.op = .setSound := by
  have hheeds : m.Heeds .tick i := h.resolve_left (m.not_disputed_self i)
  obtain ⟨op, word⟩ := i
  cases op with
  | getDelay | setDelay | setSound => simp
  | skip condition =>
    cases condition with
    | keyDown | keyUp => exact absurd rfl hheeds
    | _ => exact absurd hheeds id
  | _ => exact absurd hheeds id

/-- Only the two operations that look at a key can tell if it has gone down or up. -/
theorem op_of_notices_key {k : Fin keyCount} {isDown : Bool} (h : m.Notices (.key k isDown) i) :
    (i.op = .skip .keyDown ∨ i.op = .skip .keyUp) ∧ m.selectedKey i.x = k := by
  have hheeds : m.Heeds (.key k isDown) i := h.resolve_left (m.not_disputed_self i)
  have hselected : ∀ j, (m.keypad.set k isDown).isDown j ≠ m.keypad.isDown j → j = k := by
    intro j hj
    rw [Keypad.isDown_set] at hj
    exact Decidable.byContradiction fun hne => hj (if_neg (Ne.symm hne))
  obtain ⟨op, word⟩ := i
  cases op with
  | getDelay | setDelay | setSound => exact absurd rfl hheeds
  | skip condition =>
    cases condition with
    | keyDown => exact ⟨Or.inl rfl, hselected _ hheeds⟩
    | keyUp => exact ⟨Or.inr rfl, hselected _ hheeds⟩
    | _ => exact absurd hheeds id
  | _ => exact absurd hheeds id

end Machine

end Chip8
