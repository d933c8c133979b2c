import Chip8.CommandLine
import Chip8.Console
import Chip8.Instruction.Decoding
import Chip8.Instruction.Footprint
import Chip8.Instruction.Reading
import Chip8.Instruction.Record
import Chip8.Listing.Reader
import Chip8.Listing.Sink
import Chip8.Listing.Writer
import Chip8.Main
import Chip8.Proofs.AddressBits
import Chip8.Proofs.Agreement
import Chip8.Proofs.Calls
import Chip8.Proofs.Drift
import Chip8.Proofs.Faults
import Chip8.Proofs.Footprint
import Chip8.Proofs.Stepping
import Chip8.Guarded
import Chip8.Guarded.Clock
import Chip8.Proofs.Widths
import Chip8.Guarded.Board
import Chip8.Proofs.Sprites
import Chip8.Guarded.Execution
import Chip8.Proofs.Cells
import Chip8.Proofs.Blocks
import Chip8.Proofs.Painting
import Chip8.Proofs.Safety
import Chip8.Proofs.Redraw
import Chip8.Proofs.KeyWait
import Chip8.Proofs.BlockMoves
import Chip8.Proofs.Carries
import Chip8.Proofs.ControlFlow
import Chip8.Proofs.Lockstep
import Chip8.Proofs.Timers
import Chip8.Proofs.KeysAsked
import Chip8.Proofs.Waiting
import Chip8.Proofs.Profiles
import Chip8.Proofs.CellsRead
import Chip8.Proofs.RandomBytes
import Chip8.Proofs.Reset
import Chip8.Proofs.Tones
import Chip8.Proofs.Hexadecimal
import Chip8.Proofs.Separators
import Chip8.Proofs.Listings
import Chip8.Proofs.ListedPrograms
import Chip8.Proofs.Parity
import Chip8.Proofs.MemoryHistory
import Chip8.Proofs.Glyphs
import Chip8.Proofs.Headless
import Chip8.Proofs.Decoding
import Chip8.Proofs.Mnemonics
import Chip8.Proofs.RegisterDump
import Chip8.Proofs.FailingWriters
import Chip8.Proofs.Slices
import Chip8.Proofs.Loading
import Chip8.Proofs.DecimalDigits
import Chip8.Guarded.Screen
import Chip8.Proofs.Pictures
import Chip8.CallStack.Request
import Chip8.Guarded.Stack
import Chip8.Proofs.BoundedStack
import Chip8.Keypad.Event
import Chip8.Proofs.KeyEvents
