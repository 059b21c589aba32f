import Chip8.Progress
import Chip8.Session

/-!
# Runs and frames

Two ways of stepping many times. A run goes on until the program stays where it is, waits for a
key or has used up its limit, and may move a progress bar. A frame counts the timers down and
makes a fixed number of steps, fewer only if a key is awaited. A failed step ends either; what
was done before it stays done.
-/

namespace Chip8.Session

/-- Make at most a number of steps while no key is awaited. The answer says whether any of them
may have changed the screen. -/
def stepUpTo (s : Session) (changed : Bool) : Nat → Except Failure Bool × Session
  | 0 => (.ok changed, s)
  | budget + 1 =>
    if s.blocked then (.ok changed, s)
    else
      match s.step with
      | (.error failure, after) => (.error failure, after)
      | (.ok touched, after) => after.stepUpTo (changed || touched) budget

/-- One frame: a tick and then at most `count` steps. -/
def frame (s : Session) (count : Int) : Except Failure Bool × Session :=
  s.tick.stepUpTo false count.toNat

/-- How many steps a frame makes if the host does not say. -/
def defaultFrame : Int := 10

/-- How a run ended. -/
structure Run where
  /-- How many steps were made, or why the last one failed. -/
  result : Except Failure Nat
  /-- The session afterwards. -/
  session : Session
  /-- The progress bar, if one was asked for. -/
  bar : Option (Bar Empty)
  deriving Repr

/-- Whether a step left the program where it was: it neither completed nor began a key wait, and
the next instruction is the same. -/
def stayed (before after : Session) : Bool :=
  !before.machine.wait.active && !after.machine.wait.active && after.machine.pc == before.machine.pc

/-- Note that a program stays at an address. -/
def noteIdle (s : Session) (address : UInt16) (steps : Nat) : Session :=
  s.note .debug ("Idle loop at 0x" ++ Text.Hex.padded 3 address.toNat ++ " after " ++
    toString steps ++ " steps")

/-- Make at most a number of further steps of a run. -/
def runFrom (s : Session) (bar : Option (Bar Empty)) (executed : Nat) : Nat → Run
  | 0 => ⟨.ok executed, s, bar⟩
  | budget + 1 =>
    if s.blocked then ⟨.ok executed, s, bar⟩
    else
      match s.step with
      | (.error failure, after) => ⟨.error failure, after, bar⟩
      | (.ok _, after) =>
        let moved := bar.map (·.move 1)
        if stayed s after then
          ⟨.ok (executed + 1), after.noteIdle s.machine.pc (executed + 1), moved⟩
        else after.runFrom moved (executed + 1) budget

/-- Run at most `limit` steps. A bar that was asked for is closed at the end, however the run
ends. -/
def run (s : Session) (limit : Int) (withBar : Bool) : Run :=
  let finished := s.runFrom (if withBar then some (.start limit none []) else none) 0 limit.toNat
  { finished with bar := finished.bar.map Bar.close }

end Chip8.Session
