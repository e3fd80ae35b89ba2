import StackText.Settings
import StackText.Prettify.Sink
import StackText.Sink.Emitter
import StackText.Sink.LineWriter
import StackText.Text.Utf8

/-!
# Encoding

To encode a value is to hand its program through a prettifier to a line writer. If
all of it is taken, the sink is flushed once at the end; after a failure nothing
more is written and nothing is flushed.
-/
namespace StackText

abbrev Encoder := Emitter (PrettySink LineWriter)

namespace Encoder

def into (settings : Settings) (sink : ByteSink) : Encoder :=
  { sink := { sink := { sink, width := settings.width }, mode := settings.mode } }

def flush (e : Encoder) : Attempt IoError Encoder :=
  (OpcodeSink.flush e.sink).map fun sink => { e with sink }

/-- The byte sink at the end of the chain. -/
def bytes (e : Encoder) : ByteSink := e.sink.sink.sink

/-- What the encoder reports once it is done. -/
def summary (e : Encoder) : Event := .encoded e.emitted e.sink.mode

end Encoder

/-- Encodes a value into a byte sink and tells what happened on the way. -/
def encodeTraced (settings : Settings) (v : Value) (sink : ByteSink) :
    Traced (Attempt IoError ByteSink) :=
  let a := ((Encoder.into settings sink).value v).andThen Encoder.flush
  let summary := if a.fault.isNone then [Encoder.summary a.state] else []
  ⟨a.map Encoder.bytes, a.state.sink.events.toList ++ summary⟩

def encodeInto (settings : Settings) (v : Value) (sink : ByteSink) : Attempt IoError ByteSink :=
  (encodeTraced settings v sink).result

/-- Encodes a value into fresh memory. -/
def encodeBytes (settings : Settings) (v : Value) : Except IoError (List UInt8) :=
  (encodeInto settings v {}).toExcept.map ByteSink.toList

/-- Encodes a value as text. All tokens are characters, so nothing is lost. -/
def encodeText (v : Value) : Except IoError String :=
  (encodeBytes {} v).map fun bytes => String.ofList (Utf8.decodeLossy bytes)

end StackText
