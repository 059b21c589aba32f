import Chip8.Random.Threefry

/-!
# The stream of random bytes

A stream is a key. Each draw splits the key in two: one half becomes the stream, the other
yields the byte. Hence the bytes of a stream depend on its first key and on nothing else.
-/

namespace Chip8.Random

/-- The key of a seed, which has to fit in 64 bits with a sign; only its low 32 bits count. -/
def keyOfSeed? (seed : Int) : Option Block :=
  if -0x8000000000000000 ≤ seed ∧ seed < 0x8000000000000000 then some ⟨0, UInt32.ofInt seed⟩
  else none

/-- The stream after one draw. -/
def next (key : Block) : Block := Threefry.encrypt key ⟨0, 0⟩

/-- The key that one draw uses. -/
def drawKey (key : Block) : Block := Threefry.encrypt key ⟨0, 1⟩

/-- A uniform byte from a key that is used once. -/
def byteOf (key : Block) : UInt8 :=
  let bits := Threefry.encrypt (Threefry.encrypt key ⟨0, 1⟩) ⟨0, 0⟩
  (bits.hi ^^^ bits.lo).toUInt8

/-- The next byte of a stream. -/
def draw (key : Block) : UInt8 := byteOf (drawKey key)

end Chip8.Random
