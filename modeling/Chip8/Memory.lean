import Chip8.Fault

/-!
# Memory

A fixed vector of bytes. Addresses are integers: every access is refused if it runs past the
end, and a write is refused as well if it would touch the part below `programStart`. Nothing
checks a read at the low end; there an address counts back from the end of memory.

The view of a memory is `get`, the byte at each position; every operation is described by what
it does to it.
-/

namespace Chip8

/-- The contents of memory. -/
structure Memory where
  /-- The byte at every address. -/
  bytes : Vector UInt8 memorySize
  deriving DecidableEq, Repr

namespace Memory

/-- Memory with every byte zero. -/
def zero : Memory := ⟨Vector.replicate memorySize 0⟩

/-- The byte at a position. -/
def get (m : Memory) (i : Fin memorySize) : UInt8 := m.bytes[i]

/-- Memories with the same byte at every position are equal. -/
@[ext] theorem ext {m k : Memory} (h : ∀ i, m.get i = k.get i) : m = k := by
  cases m
  cases k
  congr 1
  exact Vector.ext fun i hi => h ⟨i, hi⟩

@[simp] theorem get_zero (i : Fin memorySize) : zero.get i = 0 := by simp [zero, get]

/-- The position of an address, counted back from the end if it is negative. It is meant for
addresses from -4096 up, since counting back ends at the first byte of memory. -/
def slot (address : Int) : Fin memorySize :=
  ⟨(address % memorySize).toNat, by simp only [memorySize]; omega⟩

/-- An address inside memory is its own position. -/
theorem slot_of_lt {a : Nat} (h : a < memorySize) : slot a = ⟨a, h⟩ := by
  apply Fin.ext
  simp only [slot, memorySize] at h ⊢
  omega

/-- Replace the byte at an address; nothing happens outside memory. -/
def put (m : Memory) (address : Nat) (value : UInt8) : Memory :=
  ⟨m.bytes.setIfInBounds address value⟩

theorem get_put (m : Memory) (address : Nat) (value : UInt8) (i : Fin memorySize) :
    (m.put address value).get i = if address = i then value else m.get i := by
  simp [put, get, Vector.getElem_setIfInBounds]

/-- Copy a run of bytes to consecutive addresses; what falls outside memory is dropped. -/
def patch (m : Memory) (address : Nat) : List UInt8 → Memory
  | [] => m
  | value :: rest => (m.put address value).patch (address + 1) rest

@[simp] theorem patch_nil (m : Memory) (address : Nat) : m.patch address [] = m := rfl

/-- A patch shows its own bytes in its range and the old ones elsewhere. -/
theorem get_patch (m : Memory) (address : Nat) (values : List UInt8) (i : Fin memorySize) :
    (m.patch address values).get i =
      if address ≤ i then values[i.val - address]?.getD (m.get i) else m.get i := by
  induction values generalizing m address with
  | nil => simp
  | cons value rest ih =>
    rw [patch, ih, get_put]
    rcases Nat.lt_trichotomy address i with h | h | h
    · have hs : i.val - address = (i.val - (address + 1)) + 1 := by omega
      simp [show address + 1 ≤ i.val by omega, show address ≤ i.val by omega,
        show address ≠ i.val by omega, hs]
    · subst h
      simp [show ¬ i.val + 1 ≤ i.val by omega]
    · simp [show ¬ address + 1 ≤ i.val by omega, show ¬ address ≤ i.val by omega,
        show address ≠ i.val by omega]

/-- Refuse a run that goes past the end, naming the first byte that does. -/
def checkRange (address length : Int) : Except Fault Unit :=
  if address + length > memorySize then .error (.outOfBounds (max address memorySize) .outside)
  else .ok ()

/-- Refuse a run that may not be written; an empty run touches nothing. -/
def checkWritable (address length : Int) : Except Fault Unit := do
  checkRange address length
  if length ≠ 0 ∧ address < programStart then .error (.outOfBounds address .reserved)

/-- The byte at an address. -/
def readByte (m : Memory) (address : Int) : Except Fault UInt8 := do
  checkRange address 1
  return m.get (slot address)

/-- The word at an address, its high byte first. -/
def readWord (m : Memory) (address : Int) : Except Fault UInt16 := do
  checkRange address 2
  return (m.get (slot address)).toUInt16 * 256 + (m.get (slot (address + 1))).toUInt16

/-- A word inside memory is the two bytes at its address. -/
theorem readWord_natCast (m : Memory) {a : Nat} (h : a + 2 ≤ memorySize) :
    m.readWord a =
      .ok ((m.get ⟨a, by omega⟩).toUInt16 * 256 + (m.get ⟨a + 1, by omega⟩).toUInt16) := by
  have hr : checkRange a 2 = .ok () := by
    simp only [checkRange, memorySize] at h ⊢
    rw [if_neg (by omega)]
  have hn : slot (a + 1 : Int) = ⟨a + 1, by omega⟩ := slot_of_lt (a := a + 1) (by omega)
  simp only [readWord, hr, slot_of_lt (show a < memorySize by omega), hn]
  rfl

/-- The end of a run as a position: counted back from the end if negative, and kept inside
memory. -/
def boundary (address : Int) : Nat :=
  if address < 0 then (address + memorySize).toNat else min address.toNat memorySize

/-- The bytes from an address on, both ends of the run taken as boundaries. -/
def readBytes (m : Memory) (address length : Int) : Except Fault (List UInt8) := do
  checkRange address length
  return (m.bytes.toArray.extract (boundary address) (boundary (address + length))).toList

@[simp] theorem boundary_natCast {a : Nat} (h : a ≤ memorySize) : boundary a = a := by
  simp only [boundary, memorySize] at h ⊢
  rw [if_neg (by omega)]
  omega

/-- Write one byte. -/
def writeByte (m : Memory) (address : Int) (value : UInt8) : Except Fault Memory := do
  checkWritable address 1
  return m.put address.toNat value

/-- Write a run of bytes. -/
def writeBytes (m : Memory) (address : Int) (values : List UInt8) : Except Fault Memory := do
  checkWritable address values.length
  return m.patch address.toNat values

/-- Copy a program to its place, if it fits. -/
def loadProgram? (m : Memory) (rom : List UInt8) : Option Memory :=
  if rom.length ≤ romCapacity then some (m.patch programStart rom) else none

end Memory

end Chip8
