import StackText.Sink.Bytes
import StackText.Sink.Opcodes
import StackText.Alphabet

/-!
# Writing opcodes in lines

A `LineWriter` writes each opcode as its token into a byte sink. If its width is
positive, it starts a new line before a token that would come after a full line,
so there is no line break at the end. The column counts the tokens since the last
line break, whatever the width was when they were written.
-/
namespace StackText

structure LineWriter where
  sink : ByteSink := {}
  alphabet : Alphabet := .ascii
  /-- Tokens to a line; zero means a single line. -/
  width : Nat := 0
  column : Nat := 0
  written : Nat := 0

namespace LineWriter

def newline : UInt8 := '\n'.toUInt8

/-- Writes a byte without counting it. -/
def putByte (w : LineWriter) (byte : UInt8) : Attempt IoError LineWriter :=
  (w.sink.write byte).map fun sink => { w with sink }

/-- Starts a new line if the current one is full. -/
def breakLine (w : LineWriter) : Attempt IoError LineWriter :=
  if 0 < w.width ∧ w.column = w.width then
    (w.putByte newline).andThen fun w => .ok { w with column := 0 }
  else .ok w

/-- Writes one token, on a new line if need be. -/
def put (w : LineWriter) (op : Opcode) : Attempt IoError LineWriter :=
  w.breakLine.andThen fun w =>
    (w.putByte (w.alphabet.token op)).andThen fun w =>
      .ok { w with column := w.column + 1, written := w.written + 1 }

def flush (w : LineWriter) : Attempt IoError LineWriter :=
  w.sink.flush.map fun sink => { w with sink }

instance : OpcodeSink LineWriter := ⟨put, flush⟩

def toList (w : LineWriter) : List UInt8 := w.sink.toList

end LineWriter
end StackText
