import Rv32.Assembly.Program
import Rv32.Command.Outcome
import Rv32.Instruction.Basic
import Rv32.Machine.Request
import Rv32.Main
import Rv32.Proofs.Assembly.Annotation
import Rv32.Proofs.Assembly.Canonical
import Rv32.Proofs.Assembly.Comments
import Rv32.Proofs.Assembly.Concatenation
import Rv32.Proofs.Assembly.Disassembly
import Rv32.Proofs.Assembly.Fidelity
import Rv32.Proofs.Assembly.Language
import Rv32.Proofs.Assembly.Layout
import Rv32.Proofs.Assembly.LineParts
import Rv32.Proofs.Assembly.Literals
import Rv32.Proofs.Assembly.Numerals
import Rv32.Proofs.Assembly.OperandWords
import Rv32.Proofs.Assembly.Operands
import Rv32.Proofs.Assembly.Outcome
import Rv32.Proofs.Assembly.Positions
import Rv32.Proofs.Assembly.Relocation
import Rv32.Proofs.Assembly.Respacing
import Rv32.Proofs.Assembly.Respelling
import Rv32.Proofs.Assembly.Scanning
import Rv32.Proofs.Assembly.Separators
import Rv32.Proofs.Assembly.Spelling
import Rv32.Proofs.Assembly.Uses
import Rv32.Proofs.Assembly.WrittenLines
import Rv32.Proofs.Command.Numbers
import Rv32.Proofs.Command.Running
import Rv32.Proofs.Command.Summary
import Rv32.Proofs.Instruction.Builders
import Rv32.Proofs.Instruction.Decoding
import Rv32.Proofs.Instruction.Encoding
import Rv32.Proofs.Instruction.Roundtrip
import Rv32.Proofs.Machine.Arithmetic
import Rv32.Proofs.Machine.Capacity
import Rv32.Proofs.Machine.Conditions
import Rv32.Proofs.Machine.Driving
import Rv32.Proofs.Machine.Invariant
import Rv32.Proofs.Machine.KeptStates
import Rv32.Proofs.Machine.Labels
import Rv32.Proofs.Machine.Loading
import Rv32.Proofs.Machine.Reference
import Rv32.Proofs.Machine.Refusal
import Rv32.Proofs.Machine.Replay
import Rv32.Proofs.Machine.Restart
import Rv32.Proofs.Machine.Safety
import Rv32.Proofs.Machine.Sizes
import Rv32.Proofs.Machine.Snapshots
import Rv32.Proofs.Machine.Stages
import Rv32.Proofs.Store.Access
import Rv32.Proofs.Store.Bulk
import Rv32.Proofs.Store.InPlace
import Rv32.Proofs.Store.Log
import Rv32.Proofs.Store.Sparse
import Rv32.Proofs.Store.Views
import Rv32.Proofs.Text.Tokens
import Rv32.Proofs.Word.Representatives
import Rv32.Store
