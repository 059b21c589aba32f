import Chip8.Memory

/-!
# Writes of numbers

A host writes numbers, which need not be bytes. A single write looks at the address first and
then at the value; a run of writes looks at all values first and then at the address.
-/

namespace Chip8.Memory

/-- Why a host's write was refused. -/
inductive WriteRefusal where
  /-- The place may not be written. -/
  | place (fault : Fault)
  /-- A value does not fit in a byte. -/
  | value
  deriving DecidableEq, Repr

/-- A number as a byte, if it is one. -/
def byte? (v : Int) : Option UInt8 := if 0 ≤ v ∧ v < 256 then some (UInt8.ofInt v) else none

/-- Write one number as a byte. -/
def writeNumber (m : Memory) (address value : Int) : Except WriteRefusal Memory :=
  match checkWritable address 1, byte? value with
  | .error fault, _ => .error (.place fault)
  | .ok (), none => .error .value
  | .ok (), some b => .ok (m.put address.toNat b)

/-- Write a run of numbers as bytes. -/
def writeNumbers (m : Memory) (address : Int) (values : List Int) : Except WriteRefusal Memory :=
  match values.mapM byte? with
  | none => .error .value
  | some bs => (m.writeBytes address bs).mapError .place

end Chip8.Memory
