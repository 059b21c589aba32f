import Chip8.Double.FloorDivision
import Chip8.Layout
import Chip8.Readings

/-!
# The timer clock

A clock turns timestamps into ticks: asked at any time, it says how many whole intervals have
passed since the last tick and moves on by as many. What is left of an interval counts for the
next question. The clock works on any timeline, that is, for any timestamps and intervals with a
whole quotient and a shift.
-/

namespace Chip8

/-- Timestamps that can be compared in intervals. -/
class Timeline (τ ι : Type) where
  /-- How many whole intervals lie between an earlier and a later timestamp. -/
  wholeIntervals : (later earlier : τ) → (interval : ι) → Except NumberRefusal Int
  /-- The timestamp a number of intervals later. -/
  shift : (start : τ) → (count : Int) → (interval : ι) → Except NumberRefusal τ

/-- A host's timestamps, counted in intervals that are doubles. -/
instance : Timeline Number Float where
  wholeIntervals later earlier interval := do
    let elapsed ← (← later.minus earlier).toDouble
    Number.wholePart (← Double.floorQuotient elapsed interval)
  shift start count interval := do
    let distance := (← Number.doubleOfWhole count) * interval
    return .real ((← start.toDouble) + distance)

/-- Exact timestamps, counted in exact intervals. -/
instance : Timeline Rat Rat where
  wholeIntervals later earlier interval := .ok ((later - earlier) / interval).floor
  shift start count interval := .ok (start + count * interval)

/-- A clock that ticks once in every interval. -/
structure Clock (τ ι : Type) where
  /-- The time between two ticks. -/
  interval : ι
  /-- When the last tick was, once the clock has been started. -/
  last : Option τ
  deriving DecidableEq, Repr

namespace Clock

/-- The ticks that are due at a time. The first question starts a clock that was not started; a
question about an earlier time than the last tick has a negative answer and leaves the clock
alone. -/
def due {τ ι : Type} [Timeline τ ι] (c : Clock τ ι) (now : τ) :
    Except NumberRefusal Int × Clock τ ι :=
  match c.last with
  | none => (.ok 0, { c with last := some now })
  | some last =>
    match Timeline.wholeIntervals now last c.interval with
    | .error refusal => (.error refusal, c)
    | .ok ticks =>
      if 0 < ticks then
        match Timeline.shift last ticks c.interval with
        | .error refusal => (.error refusal, c)
        | .ok moved => (.ok ticks, { c with last := some moved })
      else (.ok ticks, c)

/-- The ticks that are due at a stated time or, if none is stated, at the next reading. -/
def dueAt (c : Clock Number Float) (now : Option Number) (readings : Readings) :
    Except ReadingRefusal Int × Clock Number Float × Readings :=
  match now, readings.next? with
  | some time, _ =>
    let (answer, moved) := c.due time
    (answer.mapError .number, moved, readings)
  | none, none => (.error .noReading, c, readings)
  | none, some (time, rest) =>
    let (answer, moved) := c.due time
    (answer.mapError .number, moved, rest)

/-- Why a rate was refused. -/
inductive RateRefusal where
  /-- It is zero or less. -/
  | notPositive (rate : Number)
  /-- It is no number that can be divided by. -/
  | number (refusal : NumberRefusal)
  deriving DecidableEq, Repr

/-- The reason in words. -/
def RateRefusal.message : RateRefusal → String
  | .notPositive rate => "rate_hz must be positive, got " ++ rate.text
  | .number refusal => refusal.message

/-- A clock with a number of ticks in a second, started if a time is given. -/
def ofRate (rate : Number) (start : Option Number) : Except RateRefusal (Clock Number Float) :=
  if rate.isNonpositive then .error (.notPositive rate)
  else
    match rate.toDouble with
    | .error refusal => .error (.number refusal)
    | .ok perSecond => .ok ⟨1 / perSecond, start⟩

/-- The rate of a clock whose host does not say. -/
def defaultRate : Number := .whole timerRate

/-- A clock in exact arithmetic. -/
def ofExactRate (rate : Rat) (start : Option Rat) : Clock Rat Rat := ⟨1 / rate, start⟩

end Clock

end Chip8
