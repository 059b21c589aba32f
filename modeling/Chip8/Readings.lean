import Chip8.Number

/-!
# Readings of the time

Where the time comes from when nobody states it. A source may run out of readings.
-/

namespace Chip8

/-- Where readings of the time come from. -/
inductive Readings where
  /-- Always the same reading. -/
  | steady (reading : Number)
  /-- The given readings, one after the other. -/
  | listed (readings : List Number)
  deriving DecidableEq, Repr

/-- Why a request that needs the time has no answer. -/
inductive ReadingRefusal where
  /-- The source of readings is exhausted. -/
  | noReading
  /-- The computation with the time has no answer. -/
  | number (refusal : NumberRefusal)
  deriving DecidableEq, Repr

/-- The next reading and the source after it, if there is one. -/
def Readings.next? : Readings → Option (Number × Readings)
  | steady reading => some (reading, steady reading)
  | listed [] => none
  | listed (reading :: rest) => some (reading, listed rest)

end Chip8
