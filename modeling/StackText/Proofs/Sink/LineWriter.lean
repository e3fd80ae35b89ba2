import StackText.Sink.LineWriter
import StackText.Proofs.Attempt
import StackText.Proofs.Sink.Bytes
import StackText.Proofs.Sink.Opcodes

/-!
# What one request does to a line writer

A request for a token writes one byte or, on a full line, two, and either can fail. So there
are three things that it can come to (`LineWriter.Comes`): the token, on a new line if need
be, nothing, and a line break without the token. The column is right after each of them.
Without failures opcodes come to the text that `LineWriter.textFrom` lays out.
-/
namespace StackText
namespace LineWriter

/-- Whether the next token has to go to a new line. -/
def IsFull (w : LineWriter) : Prop := 0 < w.width ∧ w.column = w.width

instance (w : LineWriter) : Decidable w.IsFull :=
  inferInstanceAs (Decidable (0 < w.width ∧ w.column = w.width))

theorem breakLine_full {w : LineWriter} (h : w.IsFull) :
    w.breakLine = (w.putByte newline).andThen fun w => .ok { w with column := 0 } := if_pos h

theorem breakLine_room {w : LineWriter} (h : ¬ w.IsFull) : w.breakLine = .ok w := if_neg h

/-- What one writer has come to when another has written an opcode. -/
structure Wrote (w : LineWriter) (op : Opcode) (n : LineWriter) : Prop where
  alphabet : n.alphabet = w.alphabet
  width : n.width = w.width
  column : n.column = if w.IsFull then 1 else w.column + 1
  written : n.written = w.written + 1
  text : n.toList = w.toList ++ (if w.IsFull then [newline] else []) ++ [w.alphabet.token op]

/-- What a request for a token comes to. A failure changes nothing but the bytes in the sink
and the column, and takes at least one of the calls that the sink has still to come. -/
inductive Comes (w : LineWriter) (op : Opcode) : Attempt IoError LineWriter → Prop
  | token {n : LineWriter} (wrote : Wrote w op n) : Comes w op (.ok n)
  | nothing {sink : ByteSink} {reason : IoError} (holds : sink.toList = w.toList)
      (spent : sink.schedule.length < w.sink.schedule.length) :
      Comes w op (.fail { w with sink } reason)
  | lineBreak {sink : ByteSink} {reason : IoError} (full : w.IsFull)
      (holds : sink.toList = w.toList ++ [newline])
      (spent : sink.schedule.length < w.sink.schedule.length) :
      Comes w op (.fail { w with sink, column := 0 } reason)

theorem put_comes (w : LineWriter) (op : Opcode) : Comes w op (w.put op) := by
  rw [put]
  by_cases full : w.IsFull
  · rw [breakLine_full full, putByte]
    rcases w.sink.write_cases newline with
      ⟨broken, write, line, left⟩ | ⟨s, reason, write, same, spent⟩
    · rw [write, Attempt.map_ok, Attempt.andThen_ok, Attempt.andThen_ok, putByte]
      rcases broken.write_cases (w.alphabet.token op) with
        ⟨s, write, holds, -⟩ | ⟨s, reason, write, same, spent⟩
      · rw [write]
        refine .token ⟨rfl, rfl, (if_pos full).symm, rfl, ?_⟩
        rw [line] at holds
        rw [if_pos full]
        exact holds
      · rw [write]
        exact .lineBreak full (same.trans line) (Nat.lt_of_lt_of_le spent left)
    · rw [write]
      exact .nothing same spent
  · rw [breakLine_room full, Attempt.andThen_ok, putByte]
    rcases w.sink.write_cases (w.alphabet.token op) with
      ⟨s, write, holds, -⟩ | ⟨s, reason, write, same, spent⟩
    · rw [write]
      refine .token ⟨rfl, rfl, (if_neg full).symm, rfl, ?_⟩
      rw [if_neg full, List.append_nil]
      exact holds
    · rw [write]
      exact .nothing same spent

theorem wrote_of_put {w n : LineWriter} {op : Opcode} (h : w.put op = .ok n) : Wrote w op n := by
  have comes := w.put_comes op
  rw [h] at comes
  cases comes with
  | token wrote => exact wrote

theorem putAll_counts {w n : LineWriter} {ops : List Opcode}
    (h : OpcodeSink.putAll w ops = .ok n) :
    n.width = w.width ∧ n.written = w.written + ops.length := by
  induction ops generalizing w with
  | nil =>
      obtain rfl : w = n := congrArg Attempt.state h
      exact ⟨rfl, rfl⟩
  | cons op rest ih =>
      rw [OpcodeSink.putAll_cons, Attempt.andThen_eq_ok_iff] at h
      obtain ⟨m, put, later⟩ := h
      obtain ⟨width, written⟩ := ih later
      have wrote := wrote_of_put put
      refine ⟨width.trans wrote.width, ?_⟩
      rw [written, wrote.written, List.length_cons, Nat.add_assoc, Nat.add_comm 1]

/-- The text of opcodes on lines of a width, from a column on. -/
def textFrom (a : Alphabet) (width : Nat) : Nat → List Opcode → Bytes
  | _, [] => []
  | column, op :: rest =>
      if 0 < width ∧ column = width then newline :: a.token op :: textFrom a width 1 rest
      else a.token op :: textFrom a width (column + 1) rest

/-- Without faults to come, a token is stored, on a new line if the current one is full. -/
theorem put_eq {w : LineWriter} (h : w.sink.schedule = []) (op : Opcode) :
    w.put op = .ok
      (if 0 < w.width ∧ w.column = w.width then
        { w with
          sink := { w.sink with bytes := (w.sink.bytes.push newline).push (w.alphabet.token op) }
          column := 1, written := w.written + 1 }
      else
        { w with
          sink := { w.sink with bytes := w.sink.bytes.push (w.alphabet.token op) }
          column := w.column + 1, written := w.written + 1 }) := by
  obtain ⟨⟨bytes, schedule, flushFault, flushes⟩, alphabet, width, column, written⟩ := w
  obtain rfl : schedule = [] := h
  unfold put breakLine
  split <;> rfl

/-- Every opcode that is taken counts once, line breaks never. -/
theorem putAll_eq {w : LineWriter} (h : w.sink.schedule = []) (ops : List Opcode) :
    ∃ n : LineWriter, OpcodeSink.putAll w ops = .ok n ∧ n.sink.schedule = [] ∧
      n.sink.flushFault = w.sink.flushFault ∧
      n.toList = w.toList ++ textFrom w.alphabet w.width w.column ops ∧
      n.written = w.written + ops.length := by
  induction ops generalizing w with
  | nil => exact ⟨w, rfl, h, rfl, (List.append_nil _).symm, rfl⟩
  | cons op rest ih =>
      rw [OpcodeSink.putAll_cons, textFrom, List.length_cons]
      change ∃ n, (w.put op).andThen _ = _ ∧ _
      rw [put_eq h, Attempt.andThen_ok]
      have counted : w.written + 1 + rest.length = w.written + (rest.length + 1) := by omega
      split
      · obtain ⟨n, run, schedule, flush, text, written⟩ := ih (w := { w with
          sink := { w.sink with bytes := (w.sink.bytes.push newline).push (w.alphabet.token op) }
          column := 1, written := w.written + 1 }) h
        refine ⟨n, run, schedule, flush, text.trans ?_, written.trans counted⟩
        simp [toList, ByteSink.toList]
      · obtain ⟨n, run, schedule, flush, text, written⟩ := ih (w := { w with
          sink := { w.sink with bytes := w.sink.bytes.push (w.alphabet.token op) }
          column := w.column + 1, written := w.written + 1 }) h
        refine ⟨n, run, schedule, flush, text.trans ?_, written.trans counted⟩
        simp [toList, ByteSink.toList]

end LineWriter
end StackText
