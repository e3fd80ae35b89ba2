import StackText.Proofs.Codec.Decoding

/-!
# What decoding reports

On the way, decoding reports each byte of filler that it consumes, in the order of the input
and with its place. At most one report follows, of how it ended: how many bytes it had consumed
when an opcode failed, the failing token included, or how many there were in all at the end of
the input, and what became of them. A read that fails is not reported.
-/
namespace StackText

namespace Alphabet

/-- A report of filler tells a byte that stands at that place and for no opcode. -/
theorem fillerSkipped_mem_iff {a : Alphabet} {bytes : Bytes} {b : UInt8} {i : Nat} :
    .fillerSkipped b i ∈ a.fillerEvents 0 bytes ↔ bytes[i]? = some b ∧ a.opcode? b = none := by
  simp only [fillerEvents, List.mem_map, List.mem_filter, Prod.exists, Event.fillerSkipped.injEq,
    List.mk_mem_zipIdx_iff_getElem?, Option.isNone_iff_eq_none]
  constructor
  · rintro ⟨_, _, found, rfl, rfl⟩
    exact found
  · exact fun found => ⟨b, i, found, rfl, rfl⟩

/-- Every byte is a token or is reported. -/
theorem length_fillerEvents_add_countP (a : Alphabet) (offset : Nat) (bytes : Bytes) :
    (a.fillerEvents offset bytes).length + bytes.countP (fun b => (a.opcode? b).isSome) =
      bytes.length := by
  induction bytes generalizing offset with
  | nil => rfl
  | cons b bytes ih =>
      have later := ih (offset + 1)
      rw [List.length_cons, List.countP_cons]
      cases h : a.opcode? b with
      | none =>
          rw [fillerEvents_cons_filler h, List.length_cons, Option.isSome_none]
          simp only [Bool.false_eq_true, if_false]
          omega
      | some op =>
          rw [fillerEvents_cons_token h, Option.isSome_some, if_pos rfl]
          omega

/-- A token is not reported. -/
theorem fillerEvents_append_token {a : Alphabet} {token : UInt8} {op : Opcode}
    (h : a.opcode? token = some op) (offset : Nat) (bytes : Bytes) :
    a.fillerEvents offset (bytes ++ [token]) = a.fillerEvents offset bytes := by
  have none : [(token, offset + bytes.length)].filter (fun p => (a.opcode? p.1).isNone) = [] :=
    List.filter_cons_of_neg (by simp [h])
  rw [fillerEvents, List.zipIdx_append, List.zipIdx_singleton, List.filter_append, none,
    List.append_nil]
  rfl

theorem length_opcodes (a : Alphabet) (bytes : Bytes) :
    (a.opcodes bytes).length = bytes.countP fun b => (a.opcode? b).isSome :=
  List.length_filterMap_eq_countP

theorem level_of_mem_fillerEvents {a : Alphabet} {offset : Nat} {bytes : Bytes} {e : Event}
    (h : e ∈ a.fillerEvents offset bytes) : e.level = .trace := by
  obtain ⟨_, -, rfl⟩ := List.mem_map.1 h
  rfl

end Alphabet

namespace Traced
variable {α : Type}

/-- The events of one level, in order. -/
def eventsOf (level : TraceLevel) (t : Traced α) : List Event :=
  t.events.filter fun e => e.level = level

/-- Reports of filler and those behind them, if these are for debugging, are told apart by
their levels. -/
theorem eventsOf_of_eq_append {t : Traced α} {a : Alphabet} {offset : Nat} {bytes : Bytes}
    {closing : List Event} (log : t.events = a.fillerEvents offset bytes ++ closing)
    (debug : ∀ e ∈ closing, e.level = .debug) :
    t.events = t.eventsOf .trace ++ t.eventsOf .debug ∧
      t.eventsOf .trace = a.fillerEvents offset bytes ∧ t.eventsOf .debug = closing := by
  have traced : t.eventsOf .trace = a.fillerEvents offset bytes := by
    rw [eventsOf, log, List.filter_append, List.filter_eq_self.2, List.filter_eq_nil_iff.2,
      List.append_nil]
    · intro e mem
      simp [debug e mem]
    · intro e mem
      simp [Alphabet.level_of_mem_fillerEvents mem]
  have debugged : t.eventsOf .debug = closing := by
    rw [eventsOf, log, List.filter_append, List.filter_eq_nil_iff.2, List.filter_eq_self.2,
      List.nil_append]
    · intro e mem
      simp [debug e mem]
    · intro e mem
      simp [Alphabet.level_of_mem_fillerEvents mem]
  exact ⟨by rw [traced, debugged, log], traced, debugged⟩

end Traced

section
variable {settings : Settings} {source : Source} {n : Machine}

theorem events_of_unreadable
    (run : settings.machine.steps (Alphabet.ascii.opcodes source.data) = .ok n)
    {reason : IoError} (ending : source.ending = some reason) :
    (decodeTraced settings source).events = Alphabet.ascii.fillerEvents 0 source.data := by
  have decoding := decodeScans_completed run 0 0
  rw [ending] at decoding
  exact congrArg Traced.events decoding

theorem events_of_executed
    (run : settings.machine.steps (Alphabet.ascii.opcodes source.data) = .ok n)
    (ending : source.ending = none) :
    (decodeTraced settings source).events =
      Alphabet.ascii.fillerEvents 0 source.data ++
        [.decoded source.data.length (Alphabet.ascii.fillerEvents 0 source.data).length
          (source.data.countP fun b => (Alphabet.ascii.opcode? b).isSome)] := by
  have executed : n.executed = (Alphabet.ascii.opcodes source.data).length :=
    (Machine.executed_of_steps_ok run).trans (Nat.zero_add _)
  have decoding := decodeScans_completed run 0 0
  rw [ending, executed, Alphabet.length_opcodes, Nat.zero_add, Nat.zero_add] at decoding
  exact congrArg Traced.events decoding

theorem events_of_aborted {before later : Bytes} {token : UInt8} {op : Opcode} {k : Machine}
    {trap : Trap} (data : source.data = before ++ token :: later)
    (isToken : Alphabet.ascii.opcode? token = some op)
    (run : settings.machine.steps (Alphabet.ascii.opcodes before) = .ok n)
    (fails : n.step op = .fail k trap) :
    (decodeTraced settings source).events =
      Alphabet.ascii.fillerEvents 0 (before ++ [token]) ++
        [.decodeAborted (before.length + 1) trap] := by
  have decoding := decodeScans_aborted data isToken run fails 0 0
  rw [Nat.zero_add, ← Alphabet.fillerEvents_append_token isToken] at decoding
  exact congrArg Traced.events decoding

end

/-- Each filler byte that is consumed is traced, in order and with its place, and then there is
at most one report for debugging. If an opcode fails, that one gives the place behind its token,
before which all tokens were executed and all traces stand. If a read fails, there is none. At the
end of the input it gives the numbers of all bytes, of the traces and of the tokens, whether or
not a value was found. -/
theorem events_of_decode (settings : Settings) (source : Source) :
    let decoding := decodeTraced settings source
    let traces := decoding.eventsOf .trace
    let data := source.data
    let tokens := data.countP fun b => (Alphabet.ascii.opcode? b).isSome
    ∃ consumed,
      decoding.events = traces ++ decoding.eventsOf .debug ∧
      traces = Alphabet.ascii.fillerEvents 0 (data.take consumed) ∧
      match (settings.machine.steps (Alphabet.ascii.opcodes data)).fault, source.ending with
      | some trap, _ =>
          decoding.eventsOf .debug = [.decodeAborted consumed trap] ∧ 0 < consumed ∧
          (∃ token op n, data[consumed - 1]? = some token ∧
            Alphabet.ascii.opcode? token = some op ∧
            settings.machine.steps (Alphabet.ascii.opcodes (data.take (consumed - 1))) = .ok n ∧
            (n.step op).fault = some trap) ∧
          ∀ b i, .fillerSkipped b i ∈ traces → i < consumed
      | none, some _ => consumed = data.length ∧ decoding.eventsOf .debug = []
      | none, none =>
          consumed = data.length ∧
          decoding.eventsOf .debug = [.decoded data.length traces.length tokens] ∧
          data.length = traces.length + tokens := by
  intro decoding traces data tokens
  rcases run : settings.machine.steps (Alphabet.ascii.opcodes data) with ⟨n, _ | trap⟩
  · refine ⟨data.length, ?_⟩
    rw [List.take_length]
    cases ending : source.ending with
    | some reason =>
        have log : decoding.events = Alphabet.ascii.fillerEvents 0 data ++ [] :=
          (events_of_unreadable run ending).trans (List.append_nil _).symm
        obtain ⟨order, traced, debugged⟩ := Traced.eventsOf_of_eq_append log nofun
        exact ⟨order, traced, rfl, debugged⟩
    | none =>
        obtain ⟨order, traced, debugged⟩ :=
          Traced.eventsOf_of_eq_append (events_of_executed run ending)
            (List.forall_mem_singleton.2 rfl)
        have size := Alphabet.length_fillerEvents_add_countP .ascii 0 data
        rw [← traced] at size debugged
        exact ⟨order, traced, rfl, debugged, size.symm⟩
  · obtain ⟨before, token, later, op, k, cut, isToken, executed, fails⟩ :=
      exists_failing_token run
    obtain ⟨order, traced, debugged⟩ :=
      Traced.eventsOf_of_eq_append (events_of_aborted cut isToken executed fails)
        (List.forall_mem_singleton.2 rfl)
    -- What is consumed ends with the failing token, which is itself no filler.
    refine ⟨before.length + 1, order, ?_, debugged, Nat.succ_pos _,
      ⟨token, op, k, ?_, isToken, ?_, congrArg Attempt.fault fails⟩, ?_⟩
    · have consumed : data.take (before.length + 1) = before ++ [token] := by
        rw [cut, List.take_length_add_append]
        rfl
      rw [consumed]
      exact traced
    · rw [Nat.add_sub_cancel, cut, List.getElem?_append_right (Nat.le_refl _), Nat.sub_self]
      rfl
    · rw [Nat.add_sub_cancel, cut, List.take_left]
      exact executed
    · intro b i mem
      have told : .fillerSkipped b i ∈ Alphabet.ascii.fillerEvents 0 (before ++ [token]) := by
        rw [← traced]
        exact mem
      obtain ⟨within, -⟩ :=
        List.getElem?_eq_some_iff.1 (Alphabet.fillerSkipped_mem_iff.1 told).1
      rwa [List.length_append] at within

/-- Filler in front of a token that finds no number is traced, and the filler behind it is not
looked at. -/
theorem events_of_decode_mismatch :
    let source : Source :=
      [.chunk [32, 122], .failed ⟨.interrupted, "again"⟩, .chunk [10, 117, 46, 32]]
    let decoding := decodeTraced {} source
    .fillerSkipped 10 2 ∈ decoding.eventsOf .trace ∧ 2 < 4 ∧
      decoding.eventsOf .debug = [.decodeAborted 4 (.mismatch .intInc .int .bool)] := by
  intro source decoding
  have debug : decoding.eventsOf .debug = [.decodeAborted 4 (.mismatch .intInc .int .bool)] := by
    decide +kernel
  have listed : .fillerSkipped 10 2 ∈ decoding.eventsOf .trace := by decide +kernel
  have fault : ((({} : Settings).machine.steps (Alphabet.ascii.opcodes source.data)).fault =
      some (.mismatch .intInc .int .bool)) := by decide +kernel
  obtain ⟨consumed, -, -, run⟩ := events_of_decode {} source
  rw [fault] at run
  obtain ⟨aborted, -, -, below⟩ := run
  have place : consumed = 4 := by
    cases aborted.symm.trans debug
    rfl
  exact ⟨listed, place ▸ below 10 2 listed, debug⟩

end StackText
