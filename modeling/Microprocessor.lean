import Microprocessor.Arm.Record
import Microprocessor.Encoding.Stream
import Microprocessor.Main
import Microprocessor.Word.Pattern
import Microprocessor.X86.NamedRegister
import Microprocessor.X86.Record
import Microprocessor.Proofs.Storage.Address
import Microprocessor.Proofs.Storage.Memory
import Microprocessor.Proofs.Storage.Prefetch
import Microprocessor.Proofs.Storage.Access
import Microprocessor.Proofs.X86.Execution
import Microprocessor.Proofs.X86.Flags
import Microprocessor.Proofs.X86.Cells
import Microprocessor.Proofs.X86.Reading
import Microprocessor.Proofs.X86.Sums
import Microprocessor.Proofs.X86.Comparison
import Microprocessor.Proofs.Word.Rotation
import Microprocessor.Proofs.X86.Shifts
import Microprocessor.Proofs.X86.Products
import Microprocessor.Proofs.X86.Access
import Microprocessor.Proofs.Arm.Access
import Microprocessor.Proofs.Pipeline.Run
import Microprocessor.Proofs.Pipeline.Transparency
import Microprocessor.Proofs.Encoding.Reader
import Microprocessor.Proofs.X86.Decoding
import Microprocessor.Proofs.X86.SelfDelimiting
import Microprocessor.Proofs.X86.Modifiers
import Microprocessor.Proofs.X86.Synonyms
import Microprocessor.Proofs.Pipeline.Flush
import Microprocessor.Proofs.X86.Stack
import Microprocessor.Proofs.X86.Nesting
import Microprocessor.Proofs.Pipeline.History
import Microprocessor.Proofs.Pipeline.Stepping
import Microprocessor.Proofs.X86.Arbitration
import Microprocessor.Proofs.X86.Destination
import Microprocessor.Proofs.X86.Exchange
import Microprocessor.Proofs.X86.CodeAddress
import Microprocessor.Proofs.X86.SingleStep
import Microprocessor.Proofs.Pipeline.Raising
import Microprocessor.Proofs.Pipeline.Faults
import Microprocessor.Proofs.Arm.Privilege
import Microprocessor.Proofs.Arm.Thumb
import Microprocessor.Proofs.Arm.Exceptions
import Microprocessor.Proofs.Arm.ProgramCounter
import Microprocessor.Proofs.Pipeline.Targets
import Microprocessor.Proofs.Pipeline.Protection
import Microprocessor.Proofs.X86.Lossless
import Microprocessor.Proofs.Pipeline.Distances
import Microprocessor.Proofs.Control.Granting
import Microprocessor.Proofs.Storage.PortRange
import Microprocessor.Proofs.Storage.Ports
import Microprocessor.Proofs.Encoding.Overrun
import Microprocessor.Proofs.Pipeline.Outcome
import Microprocessor.Proofs.Pipeline.Bounded
import Microprocessor.Proofs.Terminal.Limit
import Microprocessor.Proofs.Pipeline.Boundary
import Microprocessor.Proofs.Pipeline.Stages
import Microprocessor.Proofs.Pipeline.EndOfStream
import Microprocessor.Proofs.X86.Division
import Microprocessor.Proofs.X86.DivideError
import Microprocessor.Proofs.X86.LongSums
import Microprocessor.Proofs.X86.PackedDecimals
import Microprocessor.Proofs.X86.BlockTransfer
import Microprocessor.Proofs.X86.StringSearch
import Microprocessor.Proofs.X86.SavedFlags
import Microprocessor.Proofs.Arm.Shifts
import Microprocessor.Proofs.Arm.DataProcessing
import Microprocessor.Proofs.Arm.Comparison
import Microprocessor.Proofs.Arm.WordTransfer
import Microprocessor.Proofs.Arm.Products
import Microprocessor.Proofs.Arm.Transfers
import Microprocessor.Proofs.Arm.BlockStack
import Microprocessor.Proofs.Arm.BankedStore
import Microprocessor.Proofs.Arm.WordFetch
import Microprocessor.Proofs.Control.FaultLog
import Microprocessor.Proofs.Text.Numeral
import Microprocessor.Proofs.Terminal.Numbers
import Microprocessor.Proofs.Storage.Contents
import Microprocessor.Proofs.Word.Pattern
