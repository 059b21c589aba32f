import Chip8.Number
import Chip8.Text.Grouped
import Chip8.Text.Numeral
import Chip8.Text.Quoted

/-!
# Progress bars

A bar has a total, a description and whatever settings the host adds, and keeps a record of what
was done to it: how it was moved and when it was closed. A host moves it by anything that stands
for a whole number.
-/

namespace Chip8

/-- Something that is done to a bar. -/
inductive BarEvent where
  /-- It is moved by a number of steps. -/
  | moved (steps : Int)
  /-- It is closed. -/
  | closed
  deriving DecidableEq, Repr

/-- A progress bar with settings of the host's own type. -/
structure Bar (α : Type) where
  /-- How many instructions are expected. -/
  total : Int
  /-- The text in front of the bar. -/
  description : String
  /-- What the bar counts. -/
  unitName : String
  /-- Further settings of the host. -/
  settings : List (String × α)
  /-- What was done to the bar, in order. -/
  events : Array BarEvent
  deriving DecidableEq, Repr

namespace Bar

/-- The description of a bar whose host gives none. -/
def defaultDescription (total : Int) : String :=
  "Running (up to " ++ Text.Grouped.numeral total ++ " instructions)"

/-- A new bar. The total is the one asked for, whatever the settings say. -/
def start {α : Type} (total : Int) (description : Option String) (settings : List (String × α)) :
    Bar α where
  total := total
  description := description.getD (defaultDescription total)
  unitName := "instr"
  settings := settings.filter fun setting => setting.1 != "total"
  events := #[]

/-- Move a bar. -/
def move {α : Type} (b : Bar α) (steps : Int) : Bar α :=
  { b with events := b.events.push (.moved steps) }

/-- Close a bar. -/
def close {α : Type} (b : Bar α) : Bar α := { b with events := b.events.push .closed }

/-- The moves of a bar, in order. -/
def moves {α : Type} (b : Bar α) : List Int :=
  b.events.toList.filterMap fun
    | .moved steps => some steps
    | .closed => none

/-- How often a bar was closed. -/
def closings {α : Type} (b : Bar α) : Nat := b.events.toList.count .closed

@[simp] theorem moves_start {α : Type} (total : Int) (description : Option String)
    (settings : List (String × α)) : (start total description settings).moves = [] := rfl

@[simp] theorem moves_move {α : Type} (b : Bar α) (steps : Int) :
    (b.move steps).moves = b.moves ++ [steps] := by
  simp [moves, move]

@[simp] theorem moves_close {α : Type} (b : Bar α) : b.close.moves = b.moves := by
  simp [moves, close]

@[simp] theorem closings_move {α : Type} (b : Bar α) (steps : Int) :
    (b.move steps).closings = b.closings := by
  simp [closings, move]

@[simp] theorem closings_close {α : Type} (b : Bar α) : b.close.closings = b.closings + 1 := by
  simp [closings, close]

end Bar

/-- How far a host moves a bar. -/
inductive Amount where
  /-- The host does not say. -/
  | unstated
  /-- A number, of which the whole part counts. -/
  | number (n : Number)
  /-- One for yes, nothing for no. -/
  | flag (b : Bool)
  /-- A numeral. -/
  | text (s : String)
  deriving DecidableEq, Repr

namespace Amount

/-- Why an amount is no whole number. -/
inductive Refusal where
  /-- A double without a whole part. -/
  | number (refusal : NumberRefusal)
  /-- A text that is no numeral. -/
  | text (s : String)
  deriving DecidableEq, Repr

/-- The reason in words; a long text is cut. -/
def Refusal.message : Refusal → String
  | .number refusal => refusal.message
  | .text s =>
    "invalid literal for int() with base 10: " ++
      String.ofList ((Text.Quoted.quote s).toList.take 200)

/-- The whole number that an amount stands for. -/
def steps : Amount → Except Refusal Int
  | unstated => .ok 1
  | number (.whole n) => .ok n
  | number (.real x) => (Number.wholePart x).mapError .number
  | flag b => .ok (if b then 1 else 0)
  | text s =>
    match Text.readWhole s with
    | some n => .ok n
    | none => .error (.text s)

end Amount

end Chip8
