import Chip8.Failure
import Chip8.Journal
import Chip8.Machine.Cycle
import Chip8.Machine.Signals

/-!
# Sessions

A session owns a machine on behalf of a host: it loads programs, steps the machine, passes on
ticks and keys, and keeps a journal. After a failed instruction it is halted: it remembers the
failure and refuses to step until a program is loaded again.

Every request gives an answer or a failure, together with the session afterwards.
-/

namespace Chip8

/-- What a session is ready to do. -/
inductive Status where
  /-- It can step. -/
  | ready
  /-- It waits for a key. -/
  | waitingForKey
  /-- It has failed. -/
  | halted
  deriving DecidableEq, Repr

/-- The printed name of a status. -/
def Status.label : Status → String
  | .ready => "ready"
  | .waitingForKey => "waiting_for_key"
  | .halted => "halted"

/-- A machine and what its host has arranged. -/
structure Session where
  /-- The dialect of every machine of this session. -/
  dialect : Dialect
  /-- The first key of every machine's stream of random bytes. -/
  seed : Random.Block
  /-- The program that was accepted last. -/
  rom : List UInt8
  /-- The failure that halted the machine, if any. -/
  failure : Option Report
  /-- The machine. -/
  machine : Machine
  /-- What happened. -/
  journal : Journal
  deriving DecidableEq, Repr

namespace Session

/-- The machine that a session starts with. -/
def freshMachine (s : Session) : Machine := .initial s.seed s.dialect

/-- Add an entry to the journal. -/
def note (s : Session) (level : Level) (message : String) : Session :=
  { s with journal := s.journal.record level message }

/-- What a session is ready to do. -/
def status (s : Session) : Status :=
  if s.failure.isSome then .halted
  else if s.machine.wait.active then .waitingForKey
  else .ready

/-- Whether a step can do nothing before a key goes down. -/
def blocked (s : Session) : Bool := s.machine.wait.blocked

/-- Start over with a program. One that does not fit is refused and changes nothing. -/
def load (s : Session) (rom : List UInt8) : Except Failure Unit × Session :=
  match s.freshMachine.loadProgram? rom with
  | none =>
    let failure := Failure.oversized rom
    (.error failure, s.note .error ("ROM rejected: " ++ failure.message))
  | some machine =>
    (.ok (), { s with machine, failure := none, rom }.note .info
      ("Loaded " ++ toString rom.length ++ "-byte ROM at 0x" ++ Text.Hex.padded 3 programStart))

/-- Start over with the program that was accepted last. -/
def reset (s : Session) : Except Failure Unit × Session := (s.note .debug "Reset").load s.rom

/-- A session without a program. -/
def vacant (dialect : Dialect) (seed : Random.Block) (journal : Journal) : Session where
  dialect := dialect
  seed := seed
  rom := []
  failure := none
  machine := .initial seed dialect
  journal := journal

/-- A new session, with a program if one is given. -/
def create (rom : Option (List UInt8)) (dialect : Dialect) (seed : Random.Block)
    (journal : Journal) : Except Failure Unit × Session :=
  match rom with
  | none => (.ok (), vacant dialect seed journal)
  | some rom => (vacant dialect seed journal).load rom

/-- Complete a key wait, if its key has come. -/
def resume (s : Session) : Session :=
  match s.machine.wait.latched with
  | none => s
  | some key =>
    let machine := s.machine.resume
    { s with machine }.note .debug
      ("Key 0x" ++ Text.Hex.plain key.val ++ " received, resuming at 0x" ++
        Text.Hex.padded 3 machine.pc.toNat)

/-- Note that a key wait has begun, if it has. -/
def noteWait (s : Session) : Session :=
  if s.machine.wait.active then
    s.note .debug ("Waiting for key press into V" ++ Text.Hex.plain s.machine.wait.register.val)
  else s

/-- Run one cycle. -/
def cycle (s : Session) : Except Failure Bool × Session :=
  match s.machine.cycle with
  | .error report =>
    (.error (.execution report),
      { s with failure := some report }.note .error ("Halted: " ++ report.message))
  | .ok (op, machine) => (.ok op.touchesScreen, { s with machine }.noteWait)

/-- Run one instruction or, while a key wait is on, do what can be done about it. The answer
says whether the screen may have changed. -/
def step (s : Session) : Except Failure Bool × Session :=
  match s.failure with
  | some report => (.error (.refusal report), s)
  | none => if s.machine.wait.active then (.ok false, s.resume) else s.cycle

/-- Count both timers down. -/
def tick (s : Session) : Session := { s with machine := s.machine.tick }

/-- Pass on that a key went down or up. -/
def setKey (s : Session) (key : Int) (isDown : Bool) : Except Failure Unit × Session :=
  match Keypad.key? key with
  | none => (.error (.noSuchKey key), s)
  | some k => (.ok (), { s with machine := s.machine.setKey k isDown })

end Session

end Chip8
