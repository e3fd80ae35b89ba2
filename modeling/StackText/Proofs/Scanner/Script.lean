import StackText.Proofs.Scanner

/-!
# What a scanner makes of everything that arrives

Of what arrives, token bytes, ends and failures each answer one request; filler and
interruptions answer none (`Arrival.answer?`). A request passes over a part of the arrivals
(`Scanner.Passes`), at most one of which answers, and it is the last. Parts add up, so whatever
ends and failures lie between them, the counts are those of the bytes that were passed.
-/
namespace StackText

namespace Arrival

def byte? : Arrival → Option UInt8
  | byte b => some b
  | endOfInput => none
  | failed _ => none

/-- The bytes among arrivals. -/
def bytes (arrivals : List Arrival) : Bytes := arrivals.filterMap byte?

/-- How an arrival answers the request that it is read for, unless this goes on behind it. -/
def answer? (a : Alphabet) : Arrival → Option (Except IoError (Option Opcode))
  | byte b => (a.opcode? b).map fun op => .ok (some op)
  | endOfInput => some (.ok none)
  | failed reason => if reason.kind = .interrupted then none else some (.error reason)

section
variable {a : Alphabet} {b : UInt8} {reason : IoError}

theorem answer?_token {op : Opcode} (h : a.opcode? b = some op) :
    answer? a (byte b) = some (.ok (some op)) := by
  rw [answer?, h]
  rfl

theorem answer?_filler (h : a.opcode? b = none) : answer? a (byte b) = none := by
  rw [answer?, h]
  rfl

theorem answer?_interrupted (h : reason.kind = .interrupted) : answer? a (failed reason) = none :=
  if_pos h

theorem answer?_failed (h : reason.kind ≠ .interrupted) :
    answer? a (failed reason) = some (.error reason) :=
  if_neg h

end

theorem mem_bytes {b : UInt8} {arrivals : List Arrival} (h : byte b ∈ arrivals) :
    b ∈ bytes arrivals :=
  List.mem_filterMap.2 ⟨byte b, h, rfl⟩

theorem bytes_append (first second : List Arrival) :
    bytes (first ++ second) = bytes first ++ bytes second :=
  List.filterMap_append

end Arrival

/-- The opcode that answers a request, if one does. -/
def Scan.opcode? (s : Scan) : Option Opcode :=
  match s.answer with
  | .ok answer => answer
  | .error _ => none

theorem Scan.opcode?_eq_none {s : Scan} (h : ∀ op, s.answer ≠ .ok (some op)) :
    s.opcode? = none := by
  rcases s with ⟨reason | (_ | op), events, scanner⟩
  · rfl
  · rfl
  · exact absurd rfl (h op)

namespace Scanner

/-- What becomes of a scanner by all requests but those to come. -/
def after (s : Scanner) : Nat → Scanner
  | 0 => s
  | n + 1 => s.next.scanner.after n

/-- From one scanner to another, arrivals are passed that hold these opcodes. -/
structure Passes (s t : Scanner) (ops : List Opcode) (passed : List Arrival) : Prop where
  pending : s.pending = passed ++ t.pending
  alphabet : t.alphabet = s.alphabet
  opcodes : s.alphabet.opcodes (Arrival.bytes passed) = ops
  offset : t.offset = s.offset + (Arrival.bytes passed).length
  skipped : t.skipped + ops.length = s.skipped + (Arrival.bytes passed).length

theorem Passes.refl (s : Scanner) : Passes s s [] [] := ⟨rfl, rfl, rfl, rfl, rfl⟩

theorem Passes.trans {s t u : Scanner} {ops more : List Opcode} {passed others : List Arrival}
    (first : Passes s t ops passed) (second : Passes t u more others) :
    Passes s u (ops ++ more) (passed ++ others) where
  pending := by rw [first.pending, second.pending, List.append_assoc]
  alphabet := second.alphabet.trans first.alphabet
  opcodes := by
    rw [Arrival.bytes_append, Alphabet.opcodes_append, first.opcodes, ← first.alphabet,
      second.opcodes]
  offset := by
    rw [second.offset, first.offset, Arrival.bytes_append, List.length_append, Nat.add_assoc]
  skipped := by
    have one := first.skipped
    have other := second.skipped
    rw [Arrival.bytes_append, List.length_append, List.length_append]
    omega

/-- One request passes over the arrivals up to the first that answers it, or over all of them
if none does. Then the answer is that the input has ended. -/
structure Answers (s : Scanner) (r : Scan) (passed : List Arrival) : Prop where
  passes : Passes s r.scanner r.opcode?.toList passed
  answers : passed.filterMap (Arrival.answer? s.alphabet) = [r.answer] ∨
    passed.filterMap (Arrival.answer? s.alphabet) = [] ∧ r.scanner.pending = [] ∧
      r.answer = .ok none

section
variable {a : Alphabet} {offset skipped : Nat} {rest passed : List Arrival} {r : Scan}

theorem Answers.filler {b : UInt8} (filler : a.opcode? b = none) (event : Event)
    (h : Answers ⟨a, rest, offset + 1, skipped + 1⟩ r passed) :
    Answers ⟨a, .byte b :: rest, offset, skipped⟩ (r.after event) (.byte b :: passed) where
  passes := {
    pending := congrArg _ h.passes.pending
    alphabet := h.passes.alphabet
    opcodes := (Alphabet.opcodes_cons_filler filler _).trans h.passes.opcodes
    offset := h.passes.offset.trans (Nat.add_right_comm ..)
    skipped := h.passes.skipped.trans (Nat.add_right_comm ..) }
  answers := by
    rw [List.filterMap_cons_none (Arrival.answer?_filler filler)]
    exact h.answers

theorem Answers.interrupted {reason : IoError} (interrupted : reason.kind = .interrupted)
    (h : Answers ⟨a, rest, offset, skipped⟩ r passed) :
    Answers ⟨a, .failed reason :: rest, offset, skipped⟩ r (.failed reason :: passed) where
  passes := { h.passes with pending := congrArg _ h.passes.pending }
  answers := by
    rw [List.filterMap_cons_none (Arrival.answer?_interrupted interrupted)]
    exact h.answers

end

theorem exists_answers (s : Scanner) : ∃ passed, Answers s s.next passed := by
  obtain ⟨a, pending, offset, skipped⟩ := s
  induction pending generalizing offset skipped with
  | nil => exact ⟨[], .refl _, .inr ⟨rfl, rfl, rfl⟩⟩
  | cons arrival rest ih =>
      cases arrival with
      | byte b =>
          cases h : a.opcode? b with
          | some op =>
              rw [next_token offset skipped rest h]
              refine ⟨[.byte b], ⟨rfl, rfl, Alphabet.opcodes_cons_token h [], rfl, rfl⟩, .inl ?_⟩
              rw [List.filterMap_cons_some (Arrival.answer?_token h)]
              rfl
          | none =>
              obtain ⟨passed, answers⟩ := ih (offset + 1) (skipped + 1)
              rw [next_filler offset skipped rest h]
              exact ⟨_, answers.filler h _⟩
      | endOfInput => exact ⟨[.endOfInput], ⟨rfl, rfl, rfl, rfl, rfl⟩, .inl rfl⟩
      | failed reason =>
          by_cases h : reason.kind = .interrupted
          · obtain ⟨passed, answers⟩ := ih offset skipped
            have next : (⟨a, .failed reason :: rest, offset, skipped⟩ : Scanner).next =
                (⟨a, rest, offset, skipped⟩ : Scanner).next := if_pos h
            rw [next]
            exact ⟨_, answers.interrupted h⟩
          · have next : (⟨a, .failed reason :: rest, offset, skipped⟩ : Scanner).next =
                ⟨.error reason, [], ⟨a, rest, offset, skipped⟩⟩ := if_neg h
            rw [next]
            refine ⟨[.failed reason], ⟨rfl, rfl, rfl, rfl, rfl⟩, .inl ?_⟩
            rw [List.filterMap_cons_some (Arrival.answer?_failed h)]
            rfl

/-- Requests are answered by the arrivals that do so, one each, and behind them by ends. -/
theorem answer_requests (s : Scanner) (n : Nat) :
    (s.requests n).map Scan.answer =
      (List.range n).map fun k =>
        (s.pending.filterMap (Arrival.answer? s.alphabet))[k]?.getD (.ok none) := by
  induction n generalizing s with
  | zero => rfl
  | succ n ih =>
      obtain ⟨passed, passes, answers⟩ := s.exists_answers
      rw [requests, List.map_cons, ih, List.range_succ_eq_map, List.map_cons, List.map_map,
        passes.pending, passes.alphabet, List.filterMap_append]
      rcases answers with one | ⟨none, finished, ended⟩
      · rw [one]
        rfl
      · rw [none, finished, ended]
        rfl

theorem exists_passes (s : Scanner) (n : Nat) :
    ∃ passed, Passes s (s.after n) ((s.requests n).filterMap Scan.opcode?) passed := by
  induction n generalizing s with
  | zero => exact ⟨[], .refl s⟩
  | succ n ih =>
      obtain ⟨passed, first, -⟩ := s.exists_answers
      obtain ⟨others, later⟩ := ih s.next.scanner
      refine ⟨passed ++ others, ?_⟩
      have parts : (s.requests (n + 1)).filterMap Scan.opcode? =
          s.next.opcode?.toList ++ (s.next.scanner.requests n).filterMap Scan.opcode? := by
        rw [requests, List.filterMap_cons]
        cases s.next.opcode? <;> rfl
      rw [parts]
      exact first.trans later

/-- Whatever arrives, and however often a scanner is asked, beyond ends and failures, too: its
answers are those of the arrivals, and ends for ever behind the last of them. Its offset is
the number of bytes that it has consumed, of which it has answered each token and counted the
others. A request that is not answered by an opcode consumes no token. -/
theorem requests_of_script (source : Source) (a : Alphabet) (n : Nat) :
    let start := ofSource source a
    let s := start.after n
    let ops := (start.requests n).filterMap Scan.opcode?
    ((start.requests n).map Scan.answer = (List.range n).map fun k =>
      (source.arrivals.filterMap (Arrival.answer? a))[k]?.getD (.ok none)) ∧
    (∃ consumed, source.arrivals = consumed ++ s.pending ∧
      s.offset = (Arrival.bytes consumed).length ∧
      ops = a.opcodes (Arrival.bytes consumed) ∧
      s.offset = s.skipped + ops.length) ∧
    ∃ passed, s.pending = passed ++ s.next.scanner.pending ∧
      ((∀ op, s.next.answer ≠ .ok (some op)) →
        ∀ b, Arrival.byte b ∈ passed → a.opcode? b = none) := by
  intro start s ops
  obtain ⟨consumed, passes⟩ := start.exists_passes n
  obtain ⟨passed, next, -⟩ := s.exists_answers
  refine ⟨start.answer_requests n, ⟨consumed, passes.pending, ?_, passes.opcodes.symm, ?_⟩,
    passed, next.pending, fun noOpcode b mem => ?_⟩
  · exact passes.offset.trans (Nat.zero_add _)
  · rw [passes.offset, passes.skipped]
    rfl
  · have opcodes := next.opcodes
    rw [Scan.opcode?_eq_none noOpcode, passes.alphabet] at opcodes
    exact List.filterMap_eq_nil_iff.1 opcodes b (Arrival.mem_bytes mem)

/-- A failure and an end fall behind filler, and the token behind them is still found. -/
theorem requests_of_script_resumed :
    let broken : IoError := ⟨.named "BrokenPipe", "gone"⟩
    let source : Source := [.chunk [32, 32], .failed broken, .chunk [32], .endOfInput, .chunk [46]]
    let start := ofSource source .ascii
    (start.requests 4).map Scan.answer =
        [.error broken, .ok none, .ok (some .nilNew), .ok none] ∧
      (start.after 4).offset = 4 ∧ (start.after 4).skipped = 3 ∧
      ∀ b, Arrival.byte b ∈ [Arrival.byte 32, Arrival.endOfInput] →
        Alphabet.ascii.opcode? b = none := by
  intro broken source start
  obtain ⟨answers, -⟩ := requests_of_script source .ascii 4
  obtain ⟨-, -, passed, pending, filler⟩ := requests_of_script source .ascii 1
  have part : passed = [.byte 32, .endOfInput] := List.append_cancel_right pending.symm
  have ended : (start.after 1).next.answer = .ok none := rfl
  subst part
  refine ⟨answers.trans rfl, rfl, rfl, filler fun op found => ?_⟩
  rw [ended] at found
  cases found

end Scanner
end StackText
