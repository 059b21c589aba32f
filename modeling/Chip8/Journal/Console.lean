import Chip8.Decimal.Fixed
import Chip8.Journal.Level
import Chip8.Readings

/-!
# Console lines

The form in which an entry is printed: an optional stamp with the seconds since the console was
opened, the level between brackets, on a terminal in its colour, the name of the console and the
message. One reading of the time is taken when the console is opened and one for every stamp.
-/

namespace Chip8

/-- How entries are printed. -/
structure Console where
  /-- The name printed on every line. -/
  name : String
  /-- The least serious level that is printed. -/
  threshold : Level
  /-- Whether levels are printed in colour. -/
  coloured : Bool
  /-- Whether lines start with a stamp. -/
  stamped : Bool
  /-- When the console was opened. -/
  opened : Number
  deriving DecidableEq, Repr

namespace Console

/-- Why a console could not be opened. -/
inductive OpenRefusal where
  /-- Its threshold is no level. -/
  | unknownThreshold (text : String)
  /-- The source of readings is exhausted. -/
  | noReading
  deriving DecidableEq, Repr

/-- A text with spaces in front to fill a width. -/
def padLeft (width : Nat) (s : String) : String :=
  String.ofList (List.replicate (width - s.length) ' ') ++ s

/-- The control sequence that switches to the colour of a level. -/
def colourOf : Level → String
  | .debug => "\x1b[36m"
  | .info => "\x1b[32m"
  | .warning => "\x1b[33m"
  | .error => "\x1b[31m"
  | .critical => "\x1b[35m"

/-- The level of a line between brackets. -/
def tag (coloured : Bool) (level : Level) : String :=
  let plain := "[" ++ padLeft 8 level.name ++ "]"
  if coloured then colourOf level ++ plain ++ "\x1b[0m" else plain

/-- A line without its stamp. -/
def body (c : Console) (level : Level) (message : String) : String :=
  tag c.coloured level ++ "[" ++ c.name ++ "] " ++ message

/-- The stamp of a line that is printed at a time. -/
def stamp (c : Console) (now : Number) : Except NumberRefusal String := do
  let elapsed ← (← now.minus c.opened).toDouble
  return "[" ++ padLeft 8 (Decimal.twoPlaces elapsed) ++ "s]"

/-- Whether entries of a level are printed. -/
def enabled (c : Console) (level : Level) : Bool := c.threshold.passes level

/-- Open a console. The name of its threshold is looked up before the time is read, and colours
are for terminals only. -/
def open? (name threshold : String) (wantsColour isTerminal stamped : Bool) (readings : Readings) :
    Except OpenRefusal (Console × Readings) :=
  match Level.ofName? threshold, readings.next? with
  | none, _ => .error (.unknownThreshold threshold)
  | some _, none => .error .noReading
  | some level, some (opened, rest) =>
    .ok ({ name, threshold := level, coloured := wantsColour && isTerminal, stamped, opened }, rest)

/-- What is printed for an entry, and the readings that are left. -/
def print (c : Console) (level : Level) (message : String) (readings : Readings) :
    Except ReadingRefusal String × Readings :=
  if !c.enabled level then (.ok "", readings)
  else if !c.stamped then (.ok (c.body level message ++ "\n"), readings)
  else
    match readings.next? with
    | none => (.error .noReading, readings)
    | some (now, rest) =>
      match c.stamp now with
      | .error refusal => (.error (.number refusal), rest)
      | .ok stamp => (.ok (stamp ++ c.body level message ++ "\n"), rest)

end Console

end Chip8
