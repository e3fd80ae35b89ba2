import StackText.Opcode
import StackText.Alphabet
import StackText.Attempt
import StackText.Number.Binary64
import StackText.Number.Nearest
import StackText.Number.Precision
import StackText.Number.Decimal
import StackText.Number.Shortest
import StackText.Number.FloatLayout
import StackText.Number.Reading
import StackText.Text.Printable
import StackText.Text.Utf8
import StackText.Text.Quoted
import StackText.Entries
import StackText.Value.Basic
import StackText.Value.Equality
import StackText.Value.Edit
import StackText.Value.Display
import StackText.Stack
import StackText.Machine.Trap
import StackText.Machine.Basic
import StackText.IoError
import StackText.Prettify.Basic
import StackText.Trace
import StackText.Machine.Run
import StackText.Program
import StackText.Sink.Opcodes
import StackText.Sink.Bytes
import StackText.Sink.LineWriter
import StackText.Prettify.Sink
import StackText.Sink.Emitter
import StackText.Scanner
import StackText.Settings
import StackText.Codec.Decode
import StackText.Codec.Encode
import StackText.Codec.RoundTrip
import StackText.Native.Map
import StackText.Native.Type
import StackText.Native.Convert
import StackText.CommandLine.Arguments
import StackText.CommandLine.Request
import StackText.CommandLine.Files
import StackText.CommandLine.Perform
import StackText.Main
import StackText.Proofs.Attempt
import StackText.Proofs.Machine.Step
import StackText.Proofs.Entries
import StackText.Proofs.Value.Structure
import StackText.Proofs.Value.Equality
import StackText.Proofs.Value.Rearrangement
import StackText.Proofs.Value.Alteration
import StackText.Proofs.Machine.Run
import StackText.Proofs.Machine.Heights
import StackText.Proofs.Program.Peak
import StackText.Proofs.Program.Values
import StackText.Proofs.Prettify.Sink
import StackText.Proofs.Prettify.Transparency
import StackText.Proofs.Scanner
import StackText.Proofs.Codec.Decoding
import StackText.Proofs.Codec.Events
import StackText.Proofs.Codec.Encoding
import StackText.Proofs.Codec.RoundTrip
import StackText.Proofs.Codec.Recoding
import StackText.Proofs.Machine.Contract
import StackText.Proofs.Machine.Kinds
import StackText.Proofs.Machine.Capacity
import StackText.Proofs.Codec.Capacity
import StackText.Proofs.Codec.Lines
import StackText.Proofs.Codec.Rendering
import StackText.Proofs.Machine.Frame
import StackText.Proofs.Machine.Growth
import StackText.Proofs.Machine.Integers
import StackText.Proofs.Program.Minimal
import StackText.Proofs.Codec.Growth
import StackText.Proofs.Sink.Bytes
import StackText.Proofs.Codec.Faults
import StackText.Proofs.Text.Utf8
import StackText.Proofs.Number.Binary64
import StackText.Proofs.Number.Nearest
import StackText.Proofs.Number.Precision
import StackText.Proofs.Native.Map
import StackText.Proofs.Native.RoundTrip
import StackText.Proofs.Native.Retention
import StackText.Proofs.CommandLine.Arguments
import StackText.Proofs.CommandLine.Requests
import StackText.Proofs.CommandLine.Pipe
import StackText.Proofs.Prettify.NormalForm
import StackText.Proofs.Prettify.Refusals
import StackText.Proofs.Program.Instructions
import StackText.Proofs.Codec.Modes
import StackText.Proofs.Sink.History
import StackText.Proofs.Sink.LineWriter
import StackText.Proofs.Sink.Orders
import StackText.Proofs.Sink.Widths
import StackText.Proofs.Scanner.Script
import StackText.Proofs.Program.Objects
import StackText.Proofs.Codec.Rearrangement
import StackText.Proofs.Text.Quoted
import StackText.Proofs.Value.Display
import StackText.Proofs.Native.Conformance
