import Chip8.Layout

/-!
# The keypad

Which of the sixteen keys are held down. The view is `isDown`.
-/

namespace Chip8

/-- The keys that are held down. -/
structure Keypad where
  /-- For every key whether it is down. -/
  down : Vector Bool keyCount
  deriving DecidableEq, Repr

namespace Keypad

/-- No key held down. -/
def released : Keypad := ⟨Vector.replicate keyCount false⟩

/-- The key of a number, if it has one. -/
def key? (n : Int) : Option (Fin keyCount) :=
  if h : 0 ≤ n ∧ n < keyCount then some ⟨n.toNat, by omega⟩ else none

/-- Whether a key is held down. -/
def isDown (p : Keypad) (k : Fin keyCount) : Bool := p.down[k]

/-- Record that a key is held down or not. -/
def set (p : Keypad) (k : Fin keyCount) (isDown : Bool) : Keypad := ⟨p.down.set k isDown⟩

@[simp] theorem isDown_set (p : Keypad) (k : Fin keyCount) (d : Bool) (j : Fin keyCount) :
    (p.set k d).isDown j = if k = j then d else p.isDown j := by
  simp [set, isDown, Vector.getElem_set, Fin.ext_iff]

/-- The keys that are held down, in ascending order. -/
def downKeys (p : Keypad) : List (Fin keyCount) := (List.finRange keyCount).filter p.isDown

end Keypad

end Chip8
