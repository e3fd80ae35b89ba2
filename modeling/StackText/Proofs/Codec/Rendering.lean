import StackText.Proofs.Codec.Lines

/-!
# Programs as texts, in any alphabet

A program that is written in an alphabet is read back in it, prettified and otherwise
unchanged, if the alphabet can read the tokens that it writes. This holds for each
program by itself: an alphabet may leave other opcodes unassigned, or give several the
same token. Line breaks do not show as long as they are filler, and the counts of writer
and scanner tell how many there are.
-/
namespace StackText
open LineWriter

/-- What a line writer is left with when a program is handed to it through a prettifier. -/
def rendering (a : Alphabet) (mode : Mode) (width : Nat) (program : List Opcode) :
    Attempt IoError LineWriter :=
  (OpcodeSink.putAll ({ sink := { alphabet := a, width }, mode } : PrettySink LineWriter)
    program).map PrettySink.sink

theorem exists_rendering (a : Alphabet) (mode : Mode) (width : Nat) (program : List Opcode) :
    ∃ w : LineWriter, rendering a mode width program = .ok w ∧
      w.toList = textFrom a width 0 (prettify mode program) ∧
      w.written = (prettify mode program).length := by
  obtain ⟨w, run, _, _, text, written⟩ :=
    putAll_eq (w := { alphabet := a, width }) rfl (prettify mode program)
  refine ⟨w, ?_, text, written.trans (Nat.zero_add _)⟩
  rw [rendering, PrettySink.map_sink_putAll]
  exact run

section
variable {a : Alphabet} {mode : Mode} {width : Nat} {program : List Opcode}

/-- A text is read back token by token. The filler that is skipped are its line breaks. -/
theorem yields_textFrom {ops : List Opcode}
    (legible : ∀ op ∈ ops, a.opcode? (a.token op) = some op)
    (breaks : width = 0 ∨ a.opcode? newline = none) :
    (Scanner.ofSource (.ofBytes (textFrom a width 0 ops)) a).Yields ops
      ⟨a, [], (textFrom a width 0 ops).length, lineBreaks width ops.length⟩ := by
  have read := Scanner.yields_bytes a (textFrom a width 0 ops) 0 0
  rw [opcodes_textFrom_of_legible breaks 0 legible, Nat.zero_add, Nat.zero_add] at read
  have filler : (textFrom a width 0 ops).length - ops.length = lineBreaks width ops.length := by
    rw [length_textFrom_start, Nat.add_sub_cancel_left]
  rw [filler] at read
  have arrivals : (Source.ofBytes (textFrom a width 0 ops)).arrivals =
      (textFrom a width 0 ops).map .byte := List.append_nil _
  rw [Scanner.ofSource, arrivals]
  exact read

theorem token_ne_newline (positive : 0 < width)
    (breaks : width = 0 ∨ a.opcode? newline = none) {op : Opcode}
    (legible : a.opcode? (a.token op) = some op) : a.token op ≠ newline := by
  intro same
  rw [same, breaks.resolve_left (Nat.ne_of_gt positive)] at legible
  cases legible

/-- Writing a program and scanning the text gives the prettified program and then an end,
in each alphabet that can read the tokens that it writes and has line breaks as filler, if
there are any. The counts agree: what is not a token is a line break, one behind each full
line but the last. On lines of a width the tokens are those without lines, each line but
the last is full, and no line break stands at the end. -/
theorem scan_rendering
    (legible : ∀ op ∈ prettify mode program, a.opcode? (a.token op) = some op)
    (breaks : width = 0 ∨ a.opcode? newline = none) :
    ∃ w : LineWriter, rendering a mode width program = .ok w ∧
      w.written = (prettify mode program).length ∧
      (∃ final : Scanner,
        (Scanner.ofSource (.ofBytes w.toList) a).Yields (prettify mode program) final ∧
          final.offset = w.toList.length ∧
          final.skipped + w.written = w.toList.length ∧
          final.skipped = lineBreaks width w.written) ∧
      (0 < width →
        (∃ flat : LineWriter, rendering a mode 0 program = .ok flat ∧
          w.toList.filter (· ≠ newline) = flat.toList) ∧
        (∀ line ∈ (w.toList.splitOn newline).dropLast,
          ∃ ops : List Opcode, line = ops.map a.token ∧ ops.length = width) ∧
        w.toList.getLast? ≠ some newline) := by
  obtain ⟨w, run, text, written⟩ := exists_rendering a mode width program
  refine ⟨w, run, written, ?_, ?_⟩
  · rw [text, written]
    refine ⟨_, yields_textFrom legible breaks, rfl, ?_, rfl⟩
    rw [length_textFrom_start, Nat.add_comm]
  · intro positive
    have visible : ∀ op ∈ prettify mode program, a.token op ≠ newline :=
      fun op mem => token_ne_newline positive breaks (legible op mem)
    obtain ⟨flat, flatRun, flatText, -⟩ := exists_rendering a mode 0 program
    rw [text]
    refine ⟨⟨flat, flatRun, ?_⟩, ?_, ?_⟩
    · rw [filter_textFrom visible, flatText, textFrom_zero]
    · exact (fullLines_textFrom positive (Nat.zero_le width)
        visible).tokens_of_mem_dropLast
    · rw [getLast?_textFrom]
      intro last
      obtain ⟨op, mem, token⟩ := Option.map_eq_some_iff.1 last
      exact visible op (List.mem_of_getLast? mem) token

/-- Four opcodes and no others, as bytes that are not characters. Two lines are full, and
nothing is written behind the second. -/
theorem scan_rendering_partial :
    let a : Alphabet :=
      .ofPairs [(200, .intNew), (201, .intShl), (202, .intNeg), (203, .intAdd), (204, .intNew)]
    let program : List Opcode := [.intNew, .intNew, .intShl, .intAdd]
    (∀ op ∈ prettify .pretty program, a.opcode? (a.token op) = some op) ∧
      a.opcode? newline = none ∧
      ∃ (w : LineWriter) (final : Scanner), rendering a .pretty 3 program = .ok w ∧
        w.toList = [200, 200, 201, 10, 202, 202, 203] ∧
        (Scanner.ofSource (.ofBytes w.toList) a).Yields
          [.intNew, .intNew, .intShl, .intNeg, .intNeg, .intAdd] final ∧
        final.offset = 7 ∧ final.skipped = 1 := by
  intro a program
  have legible : ∀ op ∈ prettify .pretty program, a.opcode? (a.token op) = some op := by decide
  have filler : a.opcode? newline = none := by decide
  have breaks : 3 = 0 ∨ a.opcode? newline = none := .inr filler
  obtain ⟨w, run, written, ⟨final, read, offset, -, skipped⟩, -⟩ := scan_rendering legible breaks
  have text : w.toList = [200, 200, 201, 10, 202, 202, 203] := by
    have left : (rendering a .pretty 3 program).state.toList =
        [200, 200, 201, 10, 202, 202, 203] := by decide
    rwa [run] at left
  refine ⟨legible, filler, w, final, run, text, read, ?_, ?_⟩
  · rw [offset, text]
    rfl
  · rw [skipped, written]
    decide

end
end StackText
