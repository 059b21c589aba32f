/-!
# Dialects

Instructions on whose meaning historical machines disagree, as four independent switches, and
the two settings that have a name.
-/

namespace Chip8

/-- How the disputed instructions behave. -/
structure Dialect where
  /-- Shifts read `VY`; otherwise they shift `VX` in place and ignore `VY`. -/
  shiftReadsSource : Bool
  /-- Storing and loading registers leaves the index past the last byte moved. -/
  transferAdvancesIndex : Bool
  /-- Sprite pixels past the right or bottom edge come back on the opposite one. -/
  drawWraps : Bool
  /-- The offset of a jump is `VX`; otherwise it is `V0`. -/
  offsetJumpReadsX : Bool
  deriving DecidableEq, Repr

namespace Dialect

/-- The behaviour of the first interpreter. -/
def cosmac : Dialect where
  shiftReadsSource := true
  transferAdvancesIndex := true
  drawWraps := false
  offsetJumpReadsX := false

/-- The behaviour of the calculator interpreters and their descendants. -/
def modern : Dialect where
  shiftReadsSource := false
  transferAdvancesIndex := false
  drawWraps := false
  offsetJumpReadsX := true

instance : Inhabited Dialect := ⟨cosmac⟩

/-- The settings that have a name, in the order in which they are offered. -/
def profiles : List (String × Dialect) := [("cosmac", cosmac), ("modern", modern)]

/-- The setting of a name; names are compared letter by letter. -/
def ofProfile? (name : String) : Option Dialect := profiles.lookup name

/-- What a host is told that asks for a name which is not offered. -/
def unknownProfile (name : String) : String :=
  "Unknown quirk profile '" ++ name ++ "'. Available: ['" ++
    String.intercalate "', '" (profiles.map Prod.fst) ++ "']"

end Dialect

end Chip8
