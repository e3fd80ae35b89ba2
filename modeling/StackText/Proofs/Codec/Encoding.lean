import StackText.Codec.Encode
import StackText.Proofs.Prettify.Sink
import StackText.Proofs.Scanner
import StackText.Proofs.Sink.Emitter
import StackText.Proofs.Sink.LineWriter

/-!
# What encoding writes

Each stage of an encoder is transparent to failures: it fails when, and as, the stage
behind it fails. So the chain from a value to a byte sink comes down to a line writer
that is handed the prettified program of the value (`encodeInto_eq`). Into memory, a
line writer writes `LineWriter.textFrom`, whose opcodes are those it was handed.
-/
namespace StackText

/-- The stages in front of the line writer add nothing of their own. -/
theorem encodeInto_eq (settings : Settings) (v : Value) (sink : ByteSink) :
    encodeInto settings v sink =
      ((OpcodeSink.putAll ({ sink, width := settings.width } : LineWriter)
        (prettify settings.mode v.program)).andThen LineWriter.flush).map LineWriter.sink := by
  have chain := Emitter.map_sink_value (Encoder.into settings sink) v
  have stage := PrettySink.map_sink_putAll (Encoder.into settings sink).sink v.program
  rw [← chain, Attempt.map_map] at stage
  change _ = OpcodeSink.putAll ({ sink, width := settings.width } : LineWriter)
    (prettify settings.mode v.program) at stage
  rw [← stage]
  change (((Encoder.into settings sink).value v).andThen Encoder.flush).map Encoder.bytes = _
  rcases (Encoder.into settings sink).value v with ⟨e, _ | reason⟩ <;> rfl

namespace LineWriter

/-- A text means the opcodes that it was written for, on lines of any width, if their tokens
can be read and line breaks are filler. -/
theorem opcodes_textFrom_of_legible {a : Alphabet} {width : Nat}
    (breaks : width = 0 ∨ a.opcode? newline = none) (column : Nat) {ops : List Opcode}
    (legible : ∀ op ∈ ops, a.opcode? (a.token op) = some op) :
    a.opcodes (textFrom a width column ops) = ops := by
  induction ops generalizing column with
  | nil => rfl
  | cons op rest ih =>
      obtain ⟨token, later⟩ := List.forall_mem_cons.1 legible
      rw [textFrom]
      split
      · rename_i full
        have filler := breaks.resolve_left (Nat.ne_of_gt full.1)
        rw [Alphabet.opcodes_cons_filler filler, Alphabet.opcodes_cons_token token, ih _ later]
      · rw [Alphabet.opcodes_cons_token token, ih _ later]

theorem opcodes_textFrom (width column : Nat) (ops : List Opcode) :
    Alphabet.ascii.opcodes (textFrom .ascii width column ops) = ops :=
  opcodes_textFrom_of_legible (.inr Alphabet.opcode?_ascii_newline) column
    fun op _ => Alphabet.opcode?_token_ascii op

end LineWriter

/-- Memory takes every text, whatever the settings. -/
theorem encodeBytes_eq (settings : Settings) (v : Value) :
    encodeBytes settings v =
      .ok (LineWriter.textFrom .ascii settings.width 0 (prettify settings.mode v.program)) := by
  obtain ⟨n, run, _, flush, text, _⟩ :=
    LineWriter.putAll_eq (w := { width := settings.width }) rfl (prettify settings.mode v.program)
  have flushed : n.flush = .ok { n with sink := { n.sink with flushes := n.sink.flushes + 1 } } :=
    congrArg (Attempt.mk _) flush
  rw [encodeBytes, encodeInto_eq, run, Attempt.andThen_ok, flushed]
  exact congrArg Except.ok text

end StackText
