import StackText.Codec.Decode
import StackText.Codec.Encode
import StackText.Value.Equality

/-!
# There and back

`roundTrip` encodes a value and decodes the text again; `recode` decodes a text,
encodes its value and decodes the new text. Both keep the intermediate text and
stop at the first failure.
-/
namespace StackText

inductive CodecError where
  | decode (error : DecodeError)
  | encode (reason : IoError)
  deriving DecidableEq, Repr

/-- A text written for a value, and the value read from it. -/
structure Reread where
  written : Value
  text : List UInt8
  read : Value

/-- Whether the value read equals the one written. -/
def Reread.agrees (r : Reread) : Bool := r.read == r.written

def roundTrip (settings : Settings) (v : Value) : Traced (Except CodecError Reread) :=
  let encoding := encodeTraced settings v {}
  let text : Traced (Except CodecError (List UInt8)) :=
    ⟨(encoding.result.toExcept.map ByteSink.toList).mapError .encode, encoding.events⟩
  text.andThen fun text =>
    let decoding := decodeTraced settings (.ofBytes text)
    ⟨(decoding.result.map fun read => ⟨v, text, read⟩).mapError .decode, decoding.events⟩

def recode (settings : Settings) (source : Source) : Traced (Except CodecError Reread) :=
  let decoding := decodeTraced settings source
  let value : Traced (Except CodecError Value) :=
    ⟨decoding.result.mapError .decode, decoding.events⟩
  value.andThen (roundTrip settings)

end StackText
