/-!
# Levels of a journal

How serious an entry is. A journal keeps the entries at or above its threshold.
-/

namespace Chip8

/-- How serious an entry is. -/
inductive Level where
  /-- Details for whoever develops a program. -/
  | debug
  /-- Ordinary events. -/
  | info
  /-- Something unexpected. -/
  | warning
  /-- Something failed. -/
  | error
  /-- Nothing works any more. -/
  | critical
  deriving DecidableEq, Repr

namespace Level

/-- Every level, the least serious first. -/
def all : List Level := [debug, info, warning, error, critical]

/-- The place of a level among all. -/
def severity : Level → Nat
  | debug => 0
  | info => 1
  | warning => 2
  | error => 3
  | critical => 4

/-- The printed name of a level. -/
def name : Level → String
  | debug => "DEBUG"
  | info => "INFO"
  | warning => "WARNING"
  | error => "ERROR"
  | critical => "CRITICAL"

/-- The capital of a letter as far as the names of levels need it: those of ASCII, and the
dotless i, whose capital has no dot either. -/
def capital (c : Char) : Char := if c = 'ı' then 'I' else c.toUpper

/-- The level of a name in letters of either case. -/
def ofName? (text : String) : Option Level :=
  all.find? fun level => level.name.toList == text.toList.map capital

/-- Whether an entry of a level passes a threshold. -/
def passes (threshold level : Level) : Bool := decide (threshold.severity ≤ level.severity)

/-- What a host is told that asks for a threshold which is no level. -/
def unknownThreshold (text : String) : String :=
  "Unknown log level '" ++ text ++ "'. Available: ['" ++
    String.intercalate "', '" (all.map name) ++ "']"

/-- What a host is told that names no level in an entry. -/
def unknownEntry : String := "tuple.index(x): x not in tuple"

end Level

end Chip8
