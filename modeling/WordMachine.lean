import WordMachine.Main
import WordMachine.Proofs.Machine.Failure
import WordMachine.Proofs.Machine.Transparency
import WordMachine.Proofs.Symbol.Lookup
import WordMachine.Proofs.Instruction.Decoding
import WordMachine.Proofs.Machine.Simulation
import WordMachine.Proofs.Machine.Resumption
import WordMachine.Proofs.Machine.Breakpoint
import WordMachine.Proofs.Machine.Causality
import WordMachine.Proofs.Machine.Table
import WordMachine.Proofs.Machine.Refinement
import WordMachine.Proofs.Machine.Calls
import WordMachine.Proofs.Machine.History
import WordMachine.Proofs.Machine.Narrow
import WordMachine.Proofs.Machine.Traffic
import WordMachine.Proofs.Text.Numeral
import WordMachine.Proofs.Text.Stretch
import WordMachine.Proofs.Symbol.Line
import WordMachine.Proofs.Symbol.Consistency
import WordMachine.Proofs.Symbol.Parsing
import WordMachine.Proofs.Listing.Coverage
import WordMachine.Proofs.Listing.Blocks
import WordMachine.Proofs.Machine.Listed
import WordMachine.Proofs.Machine.TraceLog
import WordMachine.Proofs.Annotation.Line
import WordMachine.Proofs.Symbol.Location
import WordMachine.Proofs.Annotation.Content
import WordMachine.Proofs.Annotation.Location
import WordMachine.Proofs.Text.LineSpan
import WordMachine.Proofs.Diagnostic
import WordMachine.Proofs.Machine.Limited
import WordMachine.Proofs.Image.Bytes
import WordMachine.Proofs.Command.MemoryDump
import WordMachine.Proofs.Machine.Dumps
import WordMachine.Proofs.Listing.Limit
import WordMachine.Proofs.Listing.Cut
import WordMachine.Proofs.Instruction.Rendering
import WordMachine.Proofs.Terminal.Reads
import WordMachine.Proofs.Memory.Override
import WordMachine.Proofs.Registers.Assignment
import WordMachine.Proofs.Command.StringText
import WordMachine.Proofs.Listing.Columns
import WordMachine.Proofs.Status
