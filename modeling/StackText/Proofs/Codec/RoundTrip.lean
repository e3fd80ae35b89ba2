import StackText.Proofs.Codec.Decoding
import StackText.Proofs.Codec.Encoding
import StackText.Proofs.Prettify.Transparency
import StackText.Proofs.Program.Values

/-!
# Values there and back

A written text is read back by running the program of its value, since neither the
layout of the text nor the prettifying changes what a run comes to
(`decodeBytes_textFrom`). The program builds the value itself, bit patterns and the
order of entries included, if there is room for `Value.need` values on the stack. A
smaller stack overflows.
-/
namespace StackText

/-- Prettified or not, a program comes to the same answer. -/
theorem Machine.conclude_prettify (m : Machine) (mode : Mode) (program : List Opcode)
    (ending : Option IoError) :
    m.conclude (prettify mode program) ending = m.conclude program ending := by
  have run := m.steps_prettifyAfter mode program m.afterShift_none
  unfold conclude
  rw [prettify, run]
  rfl

theorem decodeBytes_textFrom (settings : Settings) (mode : Mode) (width : Nat)
    (program : List Opcode) :
    decodeBytes settings (LineWriter.textFrom .ascii width 0 (prettify mode program)) =
      settings.machine.conclude program none := by
  rw [decodeBytes, decode_eq, Source.data_ofBytes, Source.ending_ofBytes,
    LineWriter.opcodes_textFrom, Machine.conclude_prettify]

namespace Value
variable {v : Value} {capacity : Nat}

theorem conclude_program_of_fits (unique : v.hasUniqueKeys) (fits : v.need ≤ capacity) :
    (Machine.ofCapacity capacity).conclude v.program none = .ok v := by
  unfold Machine.conclude
  rw [(program_replaces unique).runs_fresh fits]
  rfl

theorem conclude_program_of_short (unique : v.hasUniqueKeys) (short : capacity < v.need) :
    ∃ op, (Machine.ofCapacity capacity).conclude v.program none =
      .error (.run (.trap (.overflow op capacity))) := by
  obtain ⟨op, fault⟩ := (program_replaces unique).overflows_fresh short
  refine ⟨op, ?_⟩
  unfold Machine.conclude
  rw [fault]

end Value

end StackText
