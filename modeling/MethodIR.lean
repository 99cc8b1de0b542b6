import MethodIR.Host.Machine
import MethodIR.Main
import MethodIR.Proofs.Arena.Change
import MethodIR.Proofs.Arena.Failure
import MethodIR.Proofs.Arena.Growth
import MethodIR.Proofs.Arena.Independence
import MethodIR.Proofs.Arena.Lineage
import MethodIR.Proofs.Arena.Links
import MethodIR.Proofs.Arena.Persistence
import MethodIR.Proofs.Arena.Stepwise
import MethodIR.Proofs.Command.Atomicity
import MethodIR.Proofs.Command.Noninterference
import MethodIR.Proofs.Command.Outcome
import MethodIR.Proofs.Description.Erasure
import MethodIR.Proofs.Description.Hygiene
import MethodIR.Proofs.Description.Links
import MethodIR.Proofs.Description.Offence
import MethodIR.Proofs.Description.Refusal
import MethodIR.Proofs.Description.Representation
import MethodIR.Proofs.Description.Spelling
import MethodIR.Proofs.Encoding
import MethodIR.Proofs.Host.Looking
import MethodIR.Proofs.Host.Writing
import MethodIR.Proofs.Json.Forms
import MethodIR.Proofs.Json.Layout
import MethodIR.Proofs.Json.Nesting
import MethodIR.Proofs.Json.Records
import MethodIR.Proofs.Json.Tokens
import MethodIR.Proofs.Method.Histories
import MethodIR.Proofs.Report.RoundTrip
import MethodIR.Proofs.Table.Interning
import MethodIR.Proofs.Table.Slots
import MethodIR.Proofs.Config.Discovery
import MethodIR.Proofs.Text.Quoting
import MethodIR.Proofs.Text.Lines
import MethodIR.Proofs.Instruction.Tokens
import MethodIR.Proofs.Instruction.Reading
import MethodIR.Proofs.Instruction.Unambiguity
import MethodIR.Proofs.Json.Adjacent
import MethodIR.Proofs.Spelling
import MethodIR.Proofs.Json.Renumbering
import MethodIR.Proofs.Json.Exactness
import MethodIR.Proofs.Report.Spelling
import MethodIR.Proofs.Exactness
import MethodIR.Proofs.Description.Exactness
import MethodIR.Proofs.Report.Exactness
import MethodIR.Proofs.Numbers
import MethodIR.Proofs.Report.Lines
