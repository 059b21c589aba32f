import Chip8.Session.Run

/-!
# Host requests

The requests that change a session, as data, so that a history of a session is a list of
requests.
-/

namespace Chip8

/-- A request of the host. -/
inductive Request where
  /-- Run one instruction. -/
  | step
  /-- Run until something stops it. -/
  | run (limit : Int) (withBar : Bool)
  /-- Run one frame. -/
  | frame (count : Int)
  /-- Count the timers down. -/
  | tick
  /-- A key went down or up. -/
  | key (number : Int) (isDown : Bool)
  /-- Start over with a program. -/
  | load (rom : List UInt8)
  /-- Start over with the program that was accepted last. -/
  | reset
  deriving DecidableEq, Repr

/-- The answer to a request. -/
inductive Answer where
  /-- It was carried out. -/
  | done
  /-- Whether the screen may have changed. -/
  | changed (yes : Bool)
  /-- How many steps were made. -/
  | steps (count : Nat)
  deriving DecidableEq, Repr

/-- What a request led to. -/
structure Response where
  /-- The answer, or why there is none. -/
  answer : Except Failure Answer
  /-- The session afterwards. -/
  session : Session
  /-- The progress bar, if the request asked for one. -/
  bar : Option (Bar Empty)
  deriving Repr

namespace Session

/-- Turn the outcome of a request into a response. -/
def respond {α : Type} (toAnswer : α → Answer) (outcome : Except Failure α × Session) : Response :=
  ⟨outcome.1.map toAnswer, outcome.2, none⟩

/-- Carry out a request. -/
def perform (s : Session) : Request → Response
  | .step => respond .changed s.step
  | .run limit withBar =>
    let finished := s.run limit withBar
    ⟨finished.result.map .steps, finished.session, finished.bar⟩
  | .frame count => respond .changed (s.frame count)
  | .tick => ⟨.ok .done, s.tick, none⟩
  | .key number isDown => respond (fun _ => .done) (s.setKey number isDown)
  | .load rom => respond (fun _ => .done) (s.load rom)
  | .reset => respond (fun _ => .done) s.reset

/-- The session after a history of requests, those that failed included. -/
def after (s : Session) (history : List Request) : Session :=
  history.foldl (fun t request => (t.perform request).session) s

end Session

end Chip8
