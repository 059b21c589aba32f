import Chip8.Alu
import Chip8.CallStack
import Chip8.Clock
import Chip8.Decimal.Fixed
import Chip8.Decimal.Shortest
import Chip8.Detail
import Chip8.Dialect
import Chip8.Double.FloorDivision
import Chip8.Double.Value
import Chip8.Failure
import Chip8.Fault
import Chip8.Font
import Chip8.Instruction
import Chip8.Instruction.Decode
import Chip8.Journal
import Chip8.Journal.Console
import Chip8.Journal.Level
import Chip8.KeyWait
import Chip8.Keypad
import Chip8.Layout
import Chip8.Machine
import Chip8.Machine.Cycle
import Chip8.Machine.Execute
import Chip8.Machine.Signals
import Chip8.Memory
import Chip8.Memory.HostWrite
import Chip8.Number
import Chip8.Progress
import Chip8.Proofs.CallStack
import Chip8.Proofs.CallStack.History
import Chip8.Proofs.Clock
import Chip8.Proofs.Except
import Chip8.Proofs.Instruction.Grammar
import Chip8.Proofs.Instruction.Pattern
import Chip8.Proofs.Machine.Arithmetic
import Chip8.Proofs.Machine.Cycle
import Chip8.Proofs.Machine.Dialect
import Chip8.Proofs.Machine.Draw
import Chip8.Proofs.Machine.Fault
import Chip8.Proofs.Machine.Flow
import Chip8.Proofs.Machine.Footprint
import Chip8.Proofs.Machine.Frame
import Chip8.Proofs.Machine.Hearing
import Chip8.Proofs.Machine.Plot
import Chip8.Proofs.Machine.Reads
import Chip8.Proofs.Machine.Signals
import Chip8.Proofs.Machine.Sound
import Chip8.Proofs.Machine.Stay
import Chip8.Proofs.Machine.Storage
import Chip8.Proofs.Machine.Surroundings
import Chip8.Proofs.Machine.Transfer
import Chip8.Proofs.Memory
import Chip8.Proofs.Memory.Read
import Chip8.Proofs.Memory.Write
import Chip8.Proofs.Screen
import Chip8.Proofs.Session.Batch
import Chip8.Proofs.Session.Commute
import Chip8.Proofs.Session.Create
import Chip8.Proofs.Session.Dialect
import Chip8.Proofs.Session.Drawing
import Chip8.Proofs.Session.Fault
import Chip8.Proofs.Session.Flow
import Chip8.Proofs.Session.Frame
import Chip8.Proofs.Session.Glyph
import Chip8.Proofs.Session.Halt
import Chip8.Proofs.Session.History
import Chip8.Proofs.Session.Idle
import Chip8.Proofs.Session.Interleaving
import Chip8.Proofs.Session.Journal
import Chip8.Proofs.Session.KeyWait
import Chip8.Proofs.Session.Load
import Chip8.Proofs.Session.Progress
import Chip8.Proofs.Session.RandomBytes
import Chip8.Proofs.Session.Reset
import Chip8.Proofs.Session.Run
import Chip8.Proofs.Session.Signals
import Chip8.Proofs.Session.Simulation
import Chip8.Proofs.Session.Step
import Chip8.Proofs.Session.Storage
import Chip8.Proofs.Session.Subroutine
import Chip8.Proofs.Session.Surroundings
import Chip8.Proofs.Session.Threshold
import Chip8.Proofs.Session.Timers
import Chip8.Proofs.Session.Trail
import Chip8.Proofs.Session.Unread
import Chip8.Proofs.Session.WellFormed
import Chip8.Proofs.Sprite
import Chip8.Proofs.Sprite.Pixels
import Chip8.Random.Stream
import Chip8.Random.Threefry
import Chip8.Readings
import Chip8.Screen
import Chip8.Session
import Chip8.Session.Request
import Chip8.Session.Run
import Chip8.Sprite
import Chip8.Text.Blank
import Chip8.Text.DecimalDigit
import Chip8.Text.Grouped
import Chip8.Text.Hex
import Chip8.Text.Numeral
import Chip8.Text.Printable
import Chip8.Text.Quoted
