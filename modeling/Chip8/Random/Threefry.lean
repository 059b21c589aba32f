/-!
# A counter-based block function

Twenty rounds of additions, rotations and exclusive ors on two 32-bit words, with the words of
the key added after every fourth round. The key has a third word, the exclusive or of the other
two with a constant, and the words take turns.
-/

namespace Chip8.Random

/-- Two 32-bit words: a key, a counter or an output. -/
structure Block where
  /-- The high word. -/
  hi : UInt32
  /-- The low word. -/
  lo : UInt32
  deriving DecidableEq, Repr

namespace Threefry

/-- Rotate a word to the left by less than its width. -/
def rotateLeft (w r : UInt32) : UInt32 := (w <<< r) ||| (w >>> (32 - r))

/-- The rotations of the four rounds in a group. -/
def rotations (group : Nat) : List UInt32 :=
  if group % 2 = 0 then [13, 15, 26, 6] else [17, 29, 16, 24]

/-- One round. -/
def round (b : Block) (r : UInt32) : Block :=
  let sum := b.hi + b.lo
  ⟨sum, rotateLeft b.lo r ^^^ sum⟩

/-- The words of a key in turn. -/
def keyWord (key : Block) (i : Nat) : UInt32 :=
  match i % 3 with
  | 0 => key.hi
  | 1 => key.lo
  | _ => key.hi ^^^ key.lo ^^^ 0x1BD11BDA

/-- Four rounds and the words of the key that follow them. -/
def group (key b : Block) (i : Nat) : Block :=
  let mixed := (rotations i).foldl round b
  ⟨mixed.hi + keyWord key (i + 1), mixed.lo + keyWord key (i + 2) + UInt32.ofNat (i + 1)⟩

/-- The block of a counter under a key. -/
def encrypt (key counter : Block) : Block :=
  (List.range 5).foldl (group key)
    ⟨counter.hi + keyWord key 0, counter.lo + keyWord key 1⟩

end Threefry

end Chip8.Random
