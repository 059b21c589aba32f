import Chip8.Layout

/-!
# Waiting for a key

The state of an instruction that waits for a key. A waiting instruction takes the first key that
goes down after the wait began, whatever happens to that key afterwards.
-/

namespace Chip8

/-- The state of an instruction that waits for a key. -/
structure KeyWait where
  /-- Whether the machine is waiting. -/
  active : Bool
  /-- The register that receives the key. -/
  register : Fin registerCount
  /-- The key that ended the wait, until the instruction completes. -/
  latched : Option (Fin keyCount)
  deriving DecidableEq, Repr

namespace KeyWait

/-- Not waiting. -/
def inactive : KeyWait := ⟨false, firstRegister, none⟩

/-- Start waiting on behalf of a register. -/
def start (x : Fin registerCount) : KeyWait := ⟨true, x, none⟩

/-- Offer a key that just went down; only the first one during a wait is kept. -/
def offer (w : KeyWait) (k : Fin keyCount) : KeyWait :=
  if w.active && w.latched.isNone then { w with latched := some k } else w

/-- Whether nothing can happen before a key goes down. -/
def blocked (w : KeyWait) : Bool := w.active && w.latched.isNone

@[simp] theorem blocked_start (x : Fin registerCount) : (start x).blocked = true := rfl

theorem blocked_of_not_active {w : KeyWait} (h : w.active = false) : w.blocked = false := by
  simp [blocked, h]

/-- A blocked wait keeps the key that it is offered. -/
theorem offer_of_blocked {w : KeyWait} (h : w.blocked = true) (k : Fin keyCount) :
    w.offer k = { w with latched := some k } := if_pos h

/-- A wait that has its key and no wait at all ignore what they are offered. -/
theorem offer_of_not_blocked {w : KeyWait} (h : w.blocked = false) (k : Fin keyCount) :
    w.offer k = w := if_neg (Bool.eq_false_iff.mp h)

end KeyWait

end Chip8
