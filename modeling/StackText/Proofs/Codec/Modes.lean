import StackText.Proofs.Codec.Lines
import StackText.Proofs.Prettify.NormalForm
import StackText.Proofs.Program.Instructions
import StackText.Proofs.Text.Utf8

/-!
# Modes do not show in encoded values

The program of a value holds no addition that prettifying could expand, neither within the
program of a part nor where two parts meet. So values are encoded to the same text in
either mode, one ASCII character for each opcode that was emitted, and a line break between
lines.
-/
namespace StackText

/-- Where nothing is added, no addition stands behind a shift. -/
theorem Builds.isNormal {program : List Opcode} (builds : Builds program) :
    IsNormal program := by
  induction program with
  | nil => exact List.isChain_nil
  | cons op rest ih =>
      obtain ⟨-, later⟩ := builds_cons.1 builds
      refine List.isChain_cons.2 ⟨fun next head adds => ?_, ih later⟩
      obtain ⟨-, rfl⟩ := Opcode.addsBehind_iff.1 adds
      exact nomatch later .intAdd (List.mem_of_mem_head? head)

theorem prettify_program (mode : Mode) (v : Value) : prettify mode v.program = v.program :=
  prettify_of_isNormal mode v.program_builds.isNormal

namespace LineWriter

theorem ascii_textFrom (width column : Nat) (ops : List Opcode) :
    ∀ b ∈ textFrom .ascii width column ops, b < 128 := by
  induction ops generalizing column with
  | nil => nofun
  | cons op rest ih =>
      have token := Alphabet.token_ascii_lt op
      have line : newline < 128 := by decide
      rw [textFrom]
      split
      · exact List.forall_mem_cons.2 ⟨line, List.forall_mem_cons.2 ⟨token, ih 1⟩⟩
      · exact List.forall_mem_cons.2 ⟨token, ih (column + 1)⟩

/-- Apart from line breaks, a text is a token for each opcode. -/
theorem filter_ascii_textFrom (width column : Nat) (ops : List Opcode) :
    (textFrom .ascii width column ops).filter (· ≠ newline) = ops.map Alphabet.ascii.token := by
  have visible (op : Opcode) : Alphabet.ascii.token op ≠ newline := by
    cases op <;> decide
  exact filter_textFrom (fun op _ => visible op) width column

end LineWriter

theorem Emitter.emitted_putAll {σ : Type} [OpcodeSink σ] {e f : Emitter σ} {ops : List Opcode}
    (h : e.putAll ops = .ok f) : f.emitted = e.emitted + ops.length := by
  induction ops generalizing e with
  | nil =>
      obtain rfl : e = f := congrArg Attempt.state h
      rfl
  | cons op rest ih =>
      rw [putAll_cons, put] at h
      rcases put : OpcodeSink.put e.sink op with ⟨taken, _ | reason⟩
      · rw [put] at h
        have later : f.emitted = e.emitted + 1 + rest.length := ih h
        rw [later, List.length_cons, Nat.add_assoc, Nat.add_comm 1]
      · rw [put] at h
        cases h

/-- Into memory, an encoder emits the whole program. -/
theorem Encoder.emitted_value (settings : Settings) (v : Value) :
    ((into settings {}).value v).state.emitted = v.program.length := by
  obtain ⟨n, run, -⟩ := LineWriter.putAll_eq (w := { width := settings.width }) rfl
    (prettify settings.mode v.program)
  have emitter := Emitter.map_sink_value (into settings {}) v
  have prettifier := PrettySink.map_sink_putAll (into settings {}).sink v.program
  rw [← emitter, Attempt.map_map] at prettifier
  have fault : ((into settings {}).value v).fault = none :=
    congrArg Attempt.fault (prettifier.trans run)
  rw [Emitter.value_eq] at fault ⊢
  rcases walk : (into settings {}).putAll v.program with ⟨e, _ | reason⟩
  · exact (Emitter.emitted_putAll walk).trans (Nat.zero_add _)
  · rw [walk] at fault
    cases fault

/-- A text of a value is that of its program, whatever the mode. -/
theorem encodeBytes_eq_textFrom (settings : Settings) (v : Value) :
    encodeBytes settings v = .ok (LineWriter.textFrom .ascii settings.width 0 v.program) := by
  rw [encodeBytes_eq, prettify_program]

/-- A value is written as text without loss. -/
theorem encodeText_eq {v : Value} {bytes : Bytes} (written : encodeBytes {} v = .ok bytes)
    (ascii : ∀ b ∈ bytes, b < 128) :
    ∃ text, encodeText v = .ok text ∧ text.toByteArray.data.toList = bytes := by
  refine ⟨String.ofList (Utf8.decodeLossy bytes), congrArg (Except.map _) written, ?_⟩
  have chars := Utf8.encode_map_ofNat ascii
  have decoded : Utf8.decodeLossy bytes = bytes.map fun b => Char.ofNat b.toNat := by
    rw [← chars, Utf8.decodeLossy_encode, chars]
  rw [decoded, String.toByteArray_ofList]
  exact List.toList_data_toByteArray.trans chars

/-- What is emitted for a value builds it and does nothing else, so prettifying leaves it as it
is in either mode. Values are encoded to the same bytes in both modes, with lines of any width:
ASCII characters, of which those that are no line breaks are the tokens of what was emitted, one
for each opcode. The same bytes are written as text. -/
theorem encode_in_any_mode (v : Value) :
    Emitter.collect v = .ok v.program ∧
      (∀ op ∈ v.program, op ≠ .intAdd ∧ op ≠ .intShr ∧ op ≠ .dup) ∧
      (∀ mode, prettify mode v.program = v.program ∧
        PrettySink.collect mode v.program = .ok v.program) ∧
      (∀ capacity width, ∃ text : Bytes, (∀ b ∈ text, b < 128) ∧
        text.filter (· ≠ LineWriter.newline) = v.program.map Alphabet.ascii.token ∧
        ∀ mode,
          encodeBytes { capacity, mode, width } v = .ok text ∧
            ((Encoder.into { capacity, mode, width } {}).value v).state.emitted =
              (text.filter (· ≠ LineWriter.newline)).length) ∧
      ∃ (bytes : Bytes) (text : String), encodeBytes {} v = .ok bytes ∧
        encodeText v = .ok text ∧ text.toByteArray.data.toList = bytes := by
  refine ⟨Emitter.collect_eq v, ?_, fun mode => ⟨prettify_program mode v, ?_⟩, ?_, ?_⟩
  · intro op mem
    exact op.builds_iff.1 (v.program_builds op mem)
  · rw [PrettySink.collect_eq, prettify_program]
  · intro capacity width
    refine ⟨_, LineWriter.ascii_textFrom width 0 v.program,
      LineWriter.filter_ascii_textFrom width 0 v.program, fun mode => ⟨?_, ?_⟩⟩
    · exact encodeBytes_eq_textFrom { capacity, mode, width } v
    · rw [Encoder.emitted_value, LineWriter.filter_ascii_textFrom, List.length_map]
  · have written := encodeBytes_eq_textFrom {} v
    obtain ⟨text, same⟩ := encodeText_eq written (LineWriter.ascii_textFrom 0 0 v.program)
    exact ⟨_, text, written, same⟩

end StackText
