import StackText.Codec.Decode
import StackText.Proofs.Machine.Run
import StackText.Proofs.Scanner

/-!
# What decoding computes

Reading, skipping and executing take turns, but the outcome is that of a plain run:
take the bytes that arrive before the reading ends, keep the opcodes among them, and
execute these until one fails. `Machine.conclude` is what such a run amounts to. A
failing opcode comes before a failing read, since nothing is read behind it, and a
failing read before the result.

The steps are followed with all that they report (`decodeScans_filler` and its siblings),
and so are the two ways to the end: every opcode is executed (`decodeScans_completed`), or
one of them fails (`decodeScans_aborted`).
-/
namespace StackText

namespace Machine

/-- The answer for opcodes and the failure, if any, that ended their reading. -/
def conclude (m : Machine) (ops : List Opcode) (ending : Option IoError) :
    Except DecodeError Value :=
  match (m.steps ops).fault, ending with
  | some trap, _ => .error (.run (.trap trap))
  | none, some reason => .error (.read reason)
  | none, none => (m.steps ops).state.result.mapError .run

theorem result_eq_ok_iff {m : Machine} {v : Value} : m.result = .ok v ↔ m.top? = some v := by
  unfold result
  cases m.top? <;> simp

theorem conclude_eq_ok {m : Machine} {ops : List Opcode} {ending : Option IoError} {v : Value}
    (h : m.conclude ops ending = .ok v) : ∃ n, m.steps ops = .ok n ∧ n.top? = some v := by
  unfold conclude at h
  generalize m.steps ops = run at h ⊢
  rcases run with ⟨n, _ | trap⟩
  · cases ending with
    | some reason => cases h
    | none =>
        refine ⟨n, rfl, result_eq_ok_iff.1 ?_⟩
        change n.result.mapError DecodeError.run = .ok v at h
        cases result : n.result with
        | error reason =>
            rw [result] at h
            cases h
        | ok w =>
            rw [result] at h
            cases h
            rfl
  · cases h

end Machine

theorem Traced.after_after {α : Type} (first second : List Event) (t : Traced α) :
    (t.after second).after first = t.after (first ++ second) :=
  congrArg (mk t.result) (List.append_assoc first second t.events).symm

theorem decodeScans_after (m : Machine) (event : Event) (s : Scan) (rest : List Scan) :
    decodeScans m (s.after event :: rest) = (decodeScans m (s :: rest)).after [event] := by
  obtain ⟨reason | _ | op, events, scanner⟩ := s
  · rfl
  · rfl
  · simp only [decodeScans, Scan.after]
    cases (m.step op).fault <;> rfl

section
variable {a : Alphabet} {offset skipped : Nat} {rest : List Arrival}

theorem decodeScans_end (m : Machine) (offset skipped : Nat) :
    decodeScans m (⟨a, .endOfInput :: rest, offset, skipped⟩ : Scanner).requestsToEnd =
      decodeScans m (⟨a, [], offset, skipped⟩ : Scanner).requestsToEnd := by
  rw [Scanner.requestsToEnd_end, Scanner.requestsToEnd_nil]
  rfl

theorem decodeScans_failed (m : Machine) (offset skipped : Nat) {reason : IoError}
    (h : reason.kind ≠ .interrupted) :
    decodeScans m (⟨a, .failed reason :: rest, offset, skipped⟩ : Scanner).requestsToEnd =
      ⟨.error (.read reason), []⟩ := by
  rw [Scanner.requestsToEnd_failed h]
  rfl

theorem decodeScans_filler (m : Machine) (offset skipped : Nat) (rest : List Arrival) {b : UInt8}
    (h : a.opcode? b = none) :
    decodeScans m (⟨a, .byte b :: rest, offset, skipped⟩ : Scanner).requestsToEnd =
      (decodeScans m (⟨a, rest, offset + 1, skipped + 1⟩ : Scanner).requestsToEnd).after
        [.fillerSkipped b offset] := by
  obtain ⟨first, later, plain, shown⟩ := Scanner.requestsToEnd_filler offset skipped rest h
  rw [plain, shown, decodeScans_after]

theorem decodeScans_token_of_ok {m n : Machine} {b : UInt8} {op : Opcode}
    (h : a.opcode? b = some op) (step : m.step op = .ok n) :
    decodeScans m (⟨a, .byte b :: rest, offset, skipped⟩ : Scanner).requestsToEnd =
      decodeScans n (⟨a, rest, offset + 1, skipped⟩ : Scanner).requestsToEnd := by
  rw [Scanner.requestsToEnd_token h]
  simp only [decodeScans, step]
  rfl

theorem decodeScans_token_of_fail {m n : Machine} {b : UInt8} {op : Opcode} {trap : Trap}
    (h : a.opcode? b = some op) (step : m.step op = .fail n trap) :
    decodeScans m (⟨a, .byte b :: rest, offset, skipped⟩ : Scanner).requestsToEnd =
      ⟨.error (.run (.trap trap)), [.decodeAborted (offset + 1) trap]⟩ := by
  rw [Scanner.requestsToEnd_token h]
  simp only [decodeScans, step]
  rfl

/-- What comes behind a chunk is decoded by what the chunk leaves behind. -/
theorem decodeScans_chunk_congr {first second : List Arrival}
    (same : ∀ (m : Machine) (offset skipped : Nat),
      decodeScans m (⟨a, first, offset, skipped⟩ : Scanner).requestsToEnd =
        decodeScans m (⟨a, second, offset, skipped⟩ : Scanner).requestsToEnd)
    (bytes : Bytes) (m : Machine) (offset skipped : Nat) :
    decodeScans m (⟨a, bytes.map .byte ++ first, offset, skipped⟩ : Scanner).requestsToEnd =
      decodeScans m (⟨a, bytes.map .byte ++ second, offset, skipped⟩ : Scanner).requestsToEnd := by
  induction bytes generalizing m offset skipped with
  | nil => exact same m offset skipped
  | cons b bytes ih =>
      rw [List.map_cons, List.cons_append, List.cons_append]
      cases h : a.opcode? b with
      | none => rw [decodeScans_filler m _ _ _ h, decodeScans_filler m _ _ _ h, ih]
      | some op =>
          rcases m.step_eq_ok_or_fail op with ⟨n, step⟩ | ⟨n, trap, step⟩
          · rw [decodeScans_token_of_ok h step, decodeScans_token_of_ok h step, ih]
          · rw [decodeScans_token_of_fail h step, decodeScans_token_of_fail h step]

/-- Bytes whose opcodes can all be executed leave the reports of their filler behind. -/
theorem decodeScans_executed {m n : Machine} {bytes : Bytes}
    (run : m.steps (a.opcodes bytes) = .ok n) (offset skipped : Nat) (rest : List Arrival) :
    decodeScans m (⟨a, bytes.map .byte ++ rest, offset, skipped⟩ : Scanner).requestsToEnd =
      (decodeScans n (⟨a, rest, offset + bytes.length,
        skipped + (a.fillerEvents offset bytes).length⟩ : Scanner).requestsToEnd).after
          (a.fillerEvents offset bytes) := by
  induction bytes generalizing m offset skipped with
  | nil =>
      cases run
      rfl
  | cons b bytes ih =>
      rw [List.map_cons, List.cons_append, List.length_cons, ← Nat.add_assoc,
        Nat.add_right_comm offset]
      cases h : a.opcode? b with
      | none =>
          rw [Alphabet.opcodes_cons_filler h] at run
          rw [decodeScans_filler m _ _ _ h, ih run, Traced.after_after,
            Alphabet.fillerEvents_cons_filler h, List.length_cons, ← Nat.add_assoc,
            Nat.add_right_comm skipped]
          rfl
      | some op =>
          rw [Alphabet.opcodes_cons_token h, Machine.steps_cons] at run
          obtain ⟨k, step, later⟩ := Attempt.andThen_eq_ok_iff.1 run
          rw [decodeScans_token_of_ok h step, ih later, Alphabet.fillerEvents_cons_token h]

/-- Cuts, interruptions and whatever follows the end of the reading are not noticed. -/
theorem decodeScans_source (source : Source) (m : Machine) (offset skipped : Nat) :
    decodeScans m (⟨a, source.arrivals, offset, skipped⟩ : Scanner).requestsToEnd =
      decodeScans m (⟨a, source.data.map .byte ++ source.ending.toList.map .failed, offset,
        skipped⟩ : Scanner).requestsToEnd := by
  -- By what the reads give. Machine and counts are arbitrary, since a chunk moves them.
  induction source generalizing m offset skipped with
  | nil => rfl
  | cons event rest ih =>
      rw [Source.arrivals, List.flatMap_cons]
      cases event with
      | chunk bytes =>
          rw [Source.data, List.map_append, List.append_assoc]
          exact decodeScans_chunk_congr ih bytes m offset skipped
      | endOfInput => exact decodeScans_end m offset skipped
      | failed reason =>
          rw [ReadEvent.arrivals, List.singleton_append, Source.data, Source.ending]
          by_cases interrupted : reason.kind = .interrupted
          · rw [Scanner.requestsToEnd_interrupted interrupted, if_pos interrupted,
              if_pos interrupted]
            exact ih m offset skipped
          · rw [if_neg interrupted, if_neg interrupted]
            exact (decodeScans_failed m offset skipped interrupted).trans
              (decodeScans_failed m offset skipped interrupted).symm

variable {source : Source} {m n : Machine}

/-- Where no opcode fails, decoding goes on to the end of the reading. -/
theorem decodeScans_completed (run : m.steps (a.opcodes source.data) = .ok n)
    (offset skipped : Nat) :
    decodeScans m (⟨a, source.arrivals, offset, skipped⟩ : Scanner).requestsToEnd =
      match source.ending with
      | some reason => ⟨.error (.read reason), a.fillerEvents offset source.data⟩
      | none => ⟨n.result.mapError .run, a.fillerEvents offset source.data ++
          [.decoded (offset + source.data.length)
            (skipped + (a.fillerEvents offset source.data).length) n.executed]⟩ := by
  rw [decodeScans_source, decodeScans_executed run]
  cases ending : source.ending with
  | none =>
      rw [Option.toList_none, List.map_nil, Scanner.requestsToEnd_nil]
      rfl
  | some reason =>
      have failed := Source.kind_of_ending ending
      rw [Option.toList_some, List.map_singleton, decodeScans_failed n _ _ failed]
      exact congrArg (Traced.mk _) (List.append_nil _)

/-- The first opcode that fails ends it, behind the report of how far it came. -/
theorem decodeScans_aborted {before later : Bytes} {token : UInt8} {op : Opcode} {k : Machine}
    {trap : Trap} (data : source.data = before ++ token :: later)
    (isToken : a.opcode? token = some op) (run : m.steps (a.opcodes before) = .ok n)
    (fails : n.step op = .fail k trap) (offset skipped : Nat) :
    decodeScans m (⟨a, source.arrivals, offset, skipped⟩ : Scanner).requestsToEnd =
      ⟨.error (.run (.trap trap)), a.fillerEvents offset before ++
        [.decodeAborted (offset + before.length + 1) trap]⟩ := by
  rw [decodeScans_source, data, List.map_append, List.append_assoc, decodeScans_executed run,
    List.map_cons, List.cons_append, decodeScans_token_of_fail isToken fails]
  rfl

end

/-- A failing opcode is the token behind bytes whose opcodes can be executed. -/
theorem exists_failing_token {a : Alphabet} {bytes : Bytes} {m k : Machine} {trap : Trap}
    (h : m.steps (a.opcodes bytes) = .fail k trap) :
    ∃ before token later op n, bytes = before ++ token :: later ∧ a.opcode? token = some op ∧
      m.steps (a.opcodes before) = .ok n ∧ n.step op = .fail k trap := by
  obtain ⟨first, op, rest, n, opcodes, run, fails⟩ := Machine.exists_failing_step h
  obtain ⟨before, token, later, bytes, rfl, isToken⟩ :=
    Alphabet.exists_token_of_opcodes_eq opcodes
  exact ⟨before, token, later, op, n, bytes, isToken, run, fails⟩

theorem result_decodeScans (a : Alphabet) (source : Source) (m : Machine) (offset skipped : Nat) :
    (decodeScans m (⟨a, source.arrivals, offset, skipped⟩ : Scanner).requestsToEnd).result =
      m.conclude (a.opcodes source.data) source.ending := by
  unfold Machine.conclude
  rcases run : m.steps (a.opcodes source.data) with ⟨n, _ | trap⟩
  · rw [decodeScans_completed run]
    cases source.ending <;> rfl
  · obtain ⟨before, token, later, op, k, data, isToken, executed, fails⟩ :=
      exists_failing_token run
    rw [decodeScans_aborted data isToken executed fails]

theorem decode_eq (settings : Settings) (source : Source) :
    decode settings source =
      settings.machine.conclude (Alphabet.ascii.opcodes source.data) source.ending :=
  result_decodeScans .ascii source settings.machine 0 0

end StackText
