import Chip8.Detail
import Chip8.Fault

/-!
# Failures of host requests

Why a request of the host was not carried out, and the wording of each reason.
-/

namespace Chip8

/-- Why a request was not carried out. -/
inductive Failure where
  /-- A reason without a kind of its own. -/
  | general (details : List Detail)
  /-- A program of `size` bytes where only `capacity` are available. -/
  | romTooLarge (size capacity : Int)
  /-- A key that the keypad does not have. -/
  | invalidKey (key : Detail)
  /-- A failed instruction. -/
  | execution (report : Report)
  /-- A step of a machine that has failed before; `cause` is the earlier failure, if it is
  known. -/
  | halted (details : List Detail) (cause : Option Report)
  deriving DecidableEq, Repr

namespace Failure

/-- The reason in words. -/
def message : Failure → String
  | general details => Detail.list details
  | romTooLarge size capacity =>
    "ROM is " ++ toString size ++ " bytes but only " ++ toString capacity ++ " bytes are available"
  | invalidKey key => "invalid key " ++ key.quoted ++ ", expected 0x0-0xF"
  | execution report => report.message
  | halted details _ => Detail.list details

/-- The refusal to go on after a failed instruction. -/
def refusal (cause : Report) : Failure :=
  .halted [.text "interpreter halted after an error; reset or load a ROM to continue"] (some cause)

/-- The refusal of a number that no key has. -/
def noSuchKey (n : Int) : Failure := .invalidKey (.number (.whole n))

/-- The refusal of a program that does not fit. -/
def oversized (rom : List UInt8) : Failure := .romTooLarge rom.length romCapacity

end Failure

end Chip8
