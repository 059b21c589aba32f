import Chip8.Journal.Console

/-!
# The journal of a session

The entries that passed the threshold of a console, the oldest first. Recording decides by the
level alone and never fails, so a journal cannot influence what is recorded in it.
-/

namespace Chip8

/-- A message and how serious it is. -/
structure Entry where
  /-- How serious it is. -/
  level : Level
  /-- What happened. -/
  message : String
  deriving DecidableEq, Repr

/-- The entries of a session. -/
structure Journal where
  /-- How the entries are printed, and which of them are. -/
  console : Console
  /-- The entries kept, the oldest first. -/
  entries : Array Entry
  deriving DecidableEq, Repr

namespace Journal

/-- A journal without entries whose lines have no stamp and no colour. -/
def start (name : String) (threshold : Level) : Journal where
  console :=
    { name, threshold, coloured := false, stamped := false, opened := .whole 0 }
  entries := #[]

/-- Keep an entry if its level passes the threshold. -/
def record (j : Journal) (level : Level) (message : String) : Journal :=
  if j.console.enabled level then { j with entries := j.entries.push ⟨level, message⟩ } else j

/-- The lines of the entries from a position on. -/
def linesFrom (j : Journal) (start : Nat) : List String :=
  (j.entries.toList.drop start).map fun entry => j.console.body entry.level entry.message

end Journal

end Chip8
