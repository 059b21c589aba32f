import Chip8.Layout
import Chip8.Text.Hex

/-!
# Faults of running programs

The ways in which an instruction can fail, each with the cause and not the wording, and the one
function that words them. A `Report` adds where the failure happened.
-/

namespace Chip8

/-- Why an address may not be used. -/
inductive AddressIssue where
  /-- It lies past the end of memory. -/
  | outside
  /-- It lies in the part of memory that belongs to the interpreter. -/
  | reserved
  /-- A reason given by the host. -/
  | other (text : String)
  deriving DecidableEq, Repr

/-- The reason in words. -/
def AddressIssue.text : AddressIssue → String
  | .outside => "outside addressable memory"
  | .reserved => "reserved for the interpreter"
  | .other text => text

/-- Why an instruction word cannot be executed. -/
inductive WordIssue where
  /-- No instruction has this form. -/
  | unrecognised
  /-- It calls a routine in the machine code of the host processor. -/
  | machineCall
  /-- A reason given by the host. -/
  | other (text : String)
  deriving DecidableEq, Repr

/-- The reason in words. -/
def WordIssue.text : WordIssue → String
  | .unrecognised => "unrecognised opcode"
  | .machineCall => "machine code routine call"
  | .other text => text

/-- The cause of a failed instruction. -/
inductive Fault where
  /-- A memory access that is not allowed at this address. -/
  | outOfBounds (address : Int) (issue : AddressIssue)
  /-- A call with every frame in use; `limit` frames are available. -/
  | stackOverflow (limit : Int)
  /-- A return with no frame in use. -/
  | stackUnderflow
  /-- A word that is no executable instruction. -/
  | unknownOpcode (word : Int) (issue : WordIssue)
  /-- A cause that only the host knows, in its own words. -/
  | stated (text : String)
  deriving DecidableEq, Repr

/-- The cause in words. -/
def Fault.message : Fault → String
  | .outOfBounds address issue => "address 0x" ++ Text.Hex.plain address ++ " is " ++ issue.text
  | .stackOverflow limit => "call nesting exceeds " ++ toString limit ++ " frames"
  | .stackUnderflow => "return with empty call stack"
  | .unknownOpcode word issue => issue.text ++ " 0x" ++ Text.Hex.padded 4 word
  | .stated text => text

/-- Where an instruction failed. -/
structure Site where
  /-- The address of the instruction. -/
  pc : Int
  /-- The instruction word, if it could be read. -/
  opcode : Option Int
  /-- How many instructions had been completed. -/
  cycle : Int
  deriving DecidableEq, Repr

/-- The place in words. -/
def Site.text (s : Site) : String :=
  "cycle " ++ toString s.cycle ++ ", pc 0x" ++ Text.Hex.padded 3 s.pc ++
    match s.opcode with
    | none => ""
    | some word => ", opcode 0x" ++ Text.Hex.padded 4 word

/-- A fault and, if it is known, where it happened. -/
structure Report where
  /-- What went wrong. -/
  fault : Fault
  /-- Where it went wrong. -/
  site : Option Site
  deriving DecidableEq, Repr

/-- The fault in words, followed by its place in parentheses. -/
def Report.message (r : Report) : String :=
  match r.site with
  | none => r.fault.message
  | some site => r.fault.message ++ " (" ++ site.text ++ ")"

end Chip8
