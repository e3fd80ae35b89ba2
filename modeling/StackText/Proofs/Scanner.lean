import StackText.Scanner

/-!
# What a scanner finds, arrival by arrival

`Source.data` and `Source.ending` say what a reading gives before it ends, and
`Alphabet.opcodes` what a text means: the opcodes of its bytes, filler left out, which is
reported instead (`Alphabet.fillerEvents`). The requests of a scanner up to the end of its
input unfold one arrival at a time; filler and interruptions change the events and the
counts of the answers behind them, never the answers. `Scanner.Yields` says what all
requests give on input that does not fail.
-/
namespace StackText

/-- The opcodes that bytes stand for, in order. Filler stands for none. -/
def Alphabet.opcodes (a : Alphabet) (bytes : Bytes) : List Opcode := bytes.filterMap a.opcode?

namespace Alphabet

theorem opcodes_append (a : Alphabet) (xs ys : Bytes) :
    a.opcodes (xs ++ ys) = a.opcodes xs ++ a.opcodes ys :=
  List.filterMap_append

theorem opcodes_cons_token {a : Alphabet} {b : UInt8} {op : Opcode} (h : a.opcode? b = some op)
    (bytes : Bytes) : a.opcodes (b :: bytes) = op :: a.opcodes bytes :=
  List.filterMap_cons_some h

theorem opcodes_cons_filler {a : Alphabet} {b : UInt8} (h : a.opcode? b = none) (bytes : Bytes) :
    a.opcodes (b :: bytes) = a.opcodes bytes :=
  List.filterMap_cons_none h

/-- What stands before an opcode of a text ends at the token of that opcode. -/
theorem exists_token_of_opcodes_eq {a : Alphabet} {bytes : Bytes} {before later : List Opcode}
    {op : Opcode} (h : a.opcodes bytes = before ++ op :: later) :
    ∃ start token rest, bytes = start ++ token :: rest ∧ a.opcodes start = before ∧
      a.opcode? token = some op := by
  obtain ⟨first, second, rfl, opcodes, behind⟩ := List.filterMap_eq_append_iff.1 h
  obtain ⟨fillers, token, rest, rfl, filler, isToken, -⟩ := List.filterMap_eq_cons_iff.1 behind
  refine ⟨first ++ fillers, token, rest, by simp only [List.append_assoc], ?_, isToken⟩
  have none : a.opcodes fillers = [] := List.filterMap_eq_nil_iff.2 filler
  rw [opcodes_append, none, List.append_nil]
  exact opcodes

/-- The reports of the filler among bytes, the first of which has this offset. -/
def fillerEvents (a : Alphabet) (offset : Nat) (bytes : Bytes) : List Event :=
  ((bytes.zipIdx offset).filter fun p => (a.opcode? p.1).isNone).map fun p =>
    .fillerSkipped p.1 p.2

theorem fillerEvents_cons_token {a : Alphabet} {b : UInt8} {op : Opcode}
    (h : a.opcode? b = some op) (offset : Nat) (bytes : Bytes) :
    a.fillerEvents offset (b :: bytes) = a.fillerEvents (offset + 1) bytes := by
  rw [fillerEvents, List.zipIdx_cons, List.filter_cons_of_neg (by simp [h])]
  rfl

theorem fillerEvents_cons_filler {a : Alphabet} {b : UInt8} (h : a.opcode? b = none)
    (offset : Nat) (bytes : Bytes) :
    a.fillerEvents offset (b :: bytes) =
      .fillerSkipped b offset :: a.fillerEvents (offset + 1) bytes := by
  rw [fillerEvents, List.zipIdx_cons, List.filter_cons_of_pos (by simp [h])]
  rfl

end Alphabet

namespace Source

/-- The bytes that arrive before the first end or failure. Interruptions are no failures. -/
def data : Source → Bytes
  | [] => []
  | .chunk bytes :: rest => bytes ++ data rest
  | .endOfInput :: _ => []
  | .failed reason :: rest => if reason.kind = .interrupted then data rest else []

/-- The failure that ends the reading, unless an end comes first. -/
def ending : Source → Option IoError
  | [] => none
  | .chunk _ :: rest => ending rest
  | .endOfInput :: _ => none
  | .failed reason :: rest => if reason.kind = .interrupted then ending rest else some reason

theorem kind_of_ending {source : Source} {reason : IoError} (h : source.ending = some reason) :
    reason.kind ≠ .interrupted := by
  induction source with
  | nil => cases h
  | cons event rest ih =>
      cases event with
      | chunk bytes => exact ih h
      | endOfInput => cases h
      | failed other =>
          rw [ending] at h
          split at h
          · exact ih h
          · cases h
            assumption

@[simp] theorem data_ofBytes (bytes : Bytes) : (ofBytes bytes).data = bytes :=
  List.append_nil bytes

@[simp] theorem ending_ofBytes (bytes : Bytes) : (ofBytes bytes).ending = none := rfl

end Source

namespace Scanner
variable {a : Alphabet} {offset skipped : Nat} {rest : List Arrival}

theorem requestsToEnd_eq (s : Scanner) :
    s.requestsToEnd = s.next :: if s.next.isEnd then [] else s.next.scanner.requestsToEnd := by
  rw [requestsToEnd]
  split <;> simp_all

theorem requestsToEnd_nil :
    (⟨a, [], offset, skipped⟩ : Scanner).requestsToEnd =
      [⟨.ok none, [], ⟨a, [], offset, skipped⟩⟩] := by
  rw [requestsToEnd_eq]
  rfl

theorem requestsToEnd_end :
    (⟨a, .endOfInput :: rest, offset, skipped⟩ : Scanner).requestsToEnd =
      [⟨.ok none, [], ⟨a, rest, offset, skipped⟩⟩] := by
  rw [requestsToEnd_eq]
  rfl

theorem next_token (offset skipped : Nat) (rest : List Arrival) {b : UInt8} {op : Opcode}
    (h : a.opcode? b = some op) :
    (⟨a, .byte b :: rest, offset, skipped⟩ : Scanner).next =
      ⟨.ok (some op), [], ⟨a, rest, offset + 1, skipped⟩⟩ := by
  simp only [next, scan, h]

theorem next_filler (offset skipped : Nat) (rest : List Arrival) {b : UInt8}
    (h : a.opcode? b = none) :
    (⟨a, .byte b :: rest, offset, skipped⟩ : Scanner).next =
      (⟨a, rest, offset + 1, skipped + 1⟩ : Scanner).next.after (.fillerSkipped b offset) := by
  simp only [next, scan, h]

theorem requestsToEnd_token {b : UInt8} {op : Opcode} (h : a.opcode? b = some op) :
    (⟨a, .byte b :: rest, offset, skipped⟩ : Scanner).requestsToEnd =
      ⟨.ok (some op), [], ⟨a, rest, offset + 1, skipped⟩⟩ ::
        (⟨a, rest, offset + 1, skipped⟩ : Scanner).requestsToEnd := by
  rw [requestsToEnd_eq, next_token offset skipped rest h]
  rfl

theorem requestsToEnd_failed {reason : IoError} (h : reason.kind ≠ .interrupted) :
    (⟨a, .failed reason :: rest, offset, skipped⟩ : Scanner).requestsToEnd =
      ⟨.error reason, [], ⟨a, rest, offset, skipped⟩⟩ ::
        (⟨a, rest, offset, skipped⟩ : Scanner).requestsToEnd := by
  have next : (⟨a, .failed reason :: rest, offset, skipped⟩ : Scanner).next =
      ⟨.error reason, [], ⟨a, rest, offset, skipped⟩⟩ := by
    simp only [next, scan, if_neg h]
  rw [requestsToEnd_eq, next]
  rfl

theorem requestsToEnd_interrupted {reason : IoError} (h : reason.kind = .interrupted) :
    (⟨a, .failed reason :: rest, offset, skipped⟩ : Scanner).requestsToEnd =
      (⟨a, rest, offset, skipped⟩ : Scanner).requestsToEnd := by
  have next : (⟨a, .failed reason :: rest, offset, skipped⟩ : Scanner).next =
      (⟨a, rest, offset, skipped⟩ : Scanner).next := by
    simp only [next, scan, if_pos h]
  rw [requestsToEnd_eq, next, ← requestsToEnd_eq]

/-- A filler byte shows only in the events of the answer after it. -/
theorem requestsToEnd_filler (offset skipped : Nat) (rest : List Arrival) {b : UInt8}
    (h : a.opcode? b = none) :
    ∃ first later,
      (⟨a, rest, offset + 1, skipped + 1⟩ : Scanner).requestsToEnd = first :: later ∧
        (⟨a, .byte b :: rest, offset, skipped⟩ : Scanner).requestsToEnd =
          first.after (.fillerSkipped b offset) :: later := by
  refine ⟨_, _, requestsToEnd_eq _, ?_⟩
  rw [requestsToEnd_eq, next_filler offset skipped rest h]
  rfl

/-- Requests are answered with these opcodes, one after another, and the one behind them
with an end of the input. It leaves `final` behind. -/
inductive Yields : Scanner → List Opcode → Scanner → Prop
  | done {s : Scanner} (ended : s.next.answer = .ok none) : Yields s [] s.next.scanner
  | token {s final : Scanner} {op : Opcode} {ops : List Opcode}
      (answered : s.next.answer = .ok (some op)) (later : Yields s.next.scanner ops final) :
      Yields s (op :: ops) final

theorem Yields.of_next_eq {s t final : Scanner} {ops : List Opcode} (h : Yields s ops final)
    (answer : t.next.answer = s.next.answer) (scanner : t.next.scanner = s.next.scanner) :
    Yields t ops final := by
  cases h with
  | done ended =>
      rw [← scanner]
      exact .done (answer.trans ended)
  | token answered later =>
      rw [← scanner] at later
      exact .token (answer.trans answered) later

/-- Bytes at once give the opcodes that they stand for. By the end each byte has been
consumed, and each that stands for no opcode has been counted as filler. -/
theorem yields_bytes (a : Alphabet) (bytes : Bytes) (offset skipped : Nat) :
    Yields ⟨a, bytes.map .byte, offset, skipped⟩ (a.opcodes bytes)
      ⟨a, [], offset + bytes.length, skipped + (bytes.length - (a.opcodes bytes).length)⟩ := by
  induction bytes generalizing offset skipped with
  | nil => exact .done rfl
  | cons b bytes ih =>
      cases h : a.opcode? b with
      | some op =>
          have next := next_token offset skipped (bytes.map .byte) h
          have later := ih (offset + 1) skipped
          rw [Nat.add_right_comm offset 1] at later
          rw [Alphabet.opcodes_cons_token h, List.length_cons, List.length_cons,
            Nat.add_sub_add_right, List.map_cons]
          exact .token (by rw [next]) (by rw [next]; exact later)
      | none =>
          have next := next_filler offset skipped (bytes.map .byte) h
          have fewer : (a.opcodes bytes).length ≤ bytes.length := List.length_filterMap_le _ _
          have later := ih (offset + 1) (skipped + 1)
          rw [Nat.add_right_comm offset 1, Nat.add_assoc skipped, Nat.add_comm 1,
            ← Nat.sub_add_comm fewer] at later
          rw [Alphabet.opcodes_cons_filler h, List.length_cons, List.map_cons]
          exact later.of_next_eq (by rw [next]; rfl) (by rw [next]; rfl)

end Scanner
end StackText
