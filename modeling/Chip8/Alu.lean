/-!
# Register arithmetic

The nine operations on two bytes. Six of them only combine bits or move a byte; the others also
produce a flag: a carry, the absence of a borrow, or the bit that a shift pushes out.
-/

namespace Chip8

/-- An operation on the bytes of two registers. -/
inductive Alu where
  /-- The second byte. -/
  | assign
  /-- The bits set in either byte. -/
  | or
  /-- The bits set in both bytes. -/
  | and
  /-- The bits set in exactly one byte. -/
  | xor
  /-- The sum; the flag is its carry. -/
  | add
  /-- The first byte less the second; the flag is clear if that borrows. -/
  | subtract
  /-- The first byte halved; the flag is its lowest bit. -/
  | shiftRight
  /-- The second byte less the first; the flag is clear if that borrows. -/
  | subtractFrom
  /-- The first byte doubled; the flag is its highest bit. -/
  | shiftLeft
  deriving DecidableEq, Repr

namespace Alu

/-- What an operation produces. -/
structure Outcome where
  /-- The new byte of the first register. -/
  result : UInt8
  /-- The flag, if the operation has one. -/
  flag : Option Bool
  deriving DecidableEq, Repr

/-- Apply an operation to the bytes of the first and the second register. -/
def apply : Alu → UInt8 → UInt8 → Outcome
  | assign, _, b => ⟨b, none⟩
  | or, a, b => ⟨a ||| b, none⟩
  | and, a, b => ⟨a &&& b, none⟩
  | xor, a, b => ⟨a ^^^ b, none⟩
  | add, a, b => ⟨a + b, some (decide (255 < a.toNat + b.toNat))⟩
  | subtract, a, b => ⟨a - b, some (decide (b ≤ a))⟩
  | shiftRight, a, _ => ⟨a >>> 1, some (decide (a % 2 = 1))⟩
  | subtractFrom, a, b => ⟨b - a, some (decide (a ≤ b))⟩
  | shiftLeft, a, _ => ⟨a <<< 1, some (decide (128 ≤ a))⟩

/-- Whether an operation is a shift, which writes its flag last and may read the other register. -/
def isShift : Alu → Bool
  | shiftRight | shiftLeft => true
  | _ => false

end Alu

end Chip8
