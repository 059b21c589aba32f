import Chip8.Number
import Chip8.Text.Quoted

/-!
# Values in messages

The values that a host supplies and a message mentions. They are shown as they are or, where
they could be mistaken for words of the message, quoted.
-/

namespace Chip8

/-- A value that a host may mention. -/
inductive Detail where
  /-- No value. -/
  | absent
  /-- Yes or no. -/
  | flag (b : Bool)
  /-- A number. -/
  | number (n : Number)
  /-- A text. -/
  | text (s : String)
  deriving DecidableEq, Repr

namespace Detail

/-- A value in a form from which it can be recognised. -/
def quoted : Detail → String
  | absent => "None"
  | flag b => if b then "True" else "False"
  | number n => n.text
  | text s => Text.Quoted.quote s

/-- A value on its own; a text stands for itself. -/
def plain : Detail → String
  | text s => s
  | other => other.quoted

/-- Any number of values: a single one on its own, several in parentheses. -/
def list : List Detail → String
  | [] => ""
  | [d] => d.plain
  | ds => "(" ++ String.intercalate ", " (ds.map quoted) ++ ")"

end Detail

end Chip8
