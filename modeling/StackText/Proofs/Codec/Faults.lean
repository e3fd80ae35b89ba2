import StackText.Proofs.Codec.Encoding
import StackText.Proofs.Sink.Bytes

/-!
# Encoding into a sink that fails

Down to the sink, an encoder is a text that is written byte by byte
(`encodeInto_eq_writeAll`): nothing on the way holds a byte back or hides a failure. So the
first call that fails for good, wherever in the value it falls, leaves the text up to that
byte in the sink and is what the encoder reports. The sink is flushed if it has all of the
text, and only then.
-/
namespace StackText

namespace LineWriter

/-- What follows on a byte is carried out at the sink if it is taken there. -/
theorem map_sink_putByte (w : LineWriter) (b : UInt8)
    {next : LineWriter → Attempt IoError LineWriter} {later : ByteSink → Attempt IoError ByteSink}
    (follows : ∀ taken, (next { w with sink := taken }).map sink = later taken) :
    ((w.putByte b).andThen next).map sink = (w.sink.write b).andThen later := by
  rw [putByte]
  rcases w.sink.write b with ⟨taken, _ | reason⟩
  · exact follows taken
  · rfl

/-- A line writer hands its text to the sink behind it, byte by byte. -/
theorem map_sink_putAll (w : LineWriter) (ops : List Opcode) :
    (OpcodeSink.putAll w ops).map sink =
      w.sink.writeAll (textFrom w.alphabet w.width w.column ops) := by
  induction ops generalizing w with
  | nil => rfl
  | cons op rest ih =>
      rw [OpcodeSink.putAll_cons, textFrom]
      change ((w.put op).andThen _).map sink = _
      rw [put, breakLine]
      split
      · simp only [Attempt.andThen_assoc, ByteSink.writeAll_cons]
        apply map_sink_putByte
        intro broken
        rw [Attempt.andThen_ok]
        apply map_sink_putByte
        intro taken
        exact ih { w with sink := taken, column := 1, written := w.written + 1 }
      · simp only [Attempt.andThen_ok, Attempt.andThen_assoc, ByteSink.writeAll_cons]
        apply map_sink_putByte
        intro taken
        exact ih { w with sink := taken, column := w.column + 1, written := w.written + 1 }

end LineWriter

theorem encodeInto_eq_writeAll (settings : Settings) (v : Value) (sink : ByteSink) :
    encodeInto settings v sink =
      (sink.writeAll (LineWriter.textFrom .ascii settings.width 0
        (prettify settings.mode v.program))).andThen ByteSink.flush := by
  have written := LineWriter.map_sink_putAll ({ sink, width := settings.width } : LineWriter)
    (prettify settings.mode v.program)
  have flushed (w : LineWriter) : ByteSink.flush w.sink = w.flush.map LineWriter.sink := rfl
  rw [encodeInto_eq, ← Attempt.map_andThen flushed, written]

section
open ByteSink
variable {settings : Settings} {v : Value} {text : Bytes} {plan : Nat → CallOutcome}
  {calls : Nat}

theorem encodeInto_eq_writeAll_text (written : encodeBytes settings v = .ok text)
    (sink : ByteSink) :
    encodeInto settings v sink = (sink.writeAll text).andThen ByteSink.flush := by
  rw [encodeBytes_eq] at written
  rw [encodeInto_eq_writeAll, Except.ok.inj written]

theorem encodeInto_following_of_no_refusal (written : encodeBytes settings v = .ok text)
    (untroubled : ∀ call, storedBy plan call < text.length → (plan call).refusal? = none)
    (calls : Nat) (flushFault : Option IoError) :
    ∃ sink, encodeInto settings v (following plan calls flushFault) = ⟨sink, flushFault⟩ ∧
      sink.toList = text ∧ sink.flushes = 1 := by
  have scheduled : ∀ (i : Nat) (outcome : CallOutcome),
      (following plan calls flushFault).schedule[i]? = some outcome →
        ((following plan calls flushFault).schedule.take i).count .stored < text.length →
          outcome.refusal? = none := by
    intro i outcome at_ missing
    obtain ⟨bound, rfl⟩ := getElem?_following at_
    have start : (following plan calls flushFault).schedule.take i = (List.range i).map plan :=
      take_following (Nat.le_of_lt bound)
    rw [start] at missing
    exact untroubled i missing
  obtain ⟨left, all⟩ := writeAll_of_no_refusal scheduled
  rw [encodeInto_eq_writeAll_text written, all, Attempt.andThen_ok]
  refine ⟨_, rfl, ?_, rfl⟩
  simp [ByteSink.toList, following, storing]

theorem encodeInto_following_refused {call : Nat} {reason : IoError}
    (written : encodeBytes settings v = .ok text) (missing : storedBy plan call < text.length)
    (refused : (plan call).refusal? = some reason)
    (earlier : ∀ earlier < call, (plan earlier).refusal? = none)
    (made : call < calls) (flushFault : Option IoError) :
    ∃ sink, encodeInto settings v (following plan calls flushFault) = .fail sink reason ∧
      sink.toList = text.take (storedBy plan call) ∧ sink.flushes = 0 := by
  have start : (following plan calls flushFault).schedule.take call = (List.range call).map plan :=
    take_following (Nat.le_of_lt made)
  have at_ : (following plan calls flushFault).schedule[call]? = some (plan call) := by
    simp [following, List.getElem?_range made]
  have before : ∀ o ∈ (following plan calls flushFault).schedule.take call,
      o.refusal? = none := by
    rw [start]
    intro o mem
    obtain ⟨i, bound, rfl⟩ := List.mem_map.1 mem
    exact earlier i (List.mem_range.1 bound)
  rw [storedBy, ← start] at missing
  have part := writeAll_refused at_ refused before missing
  rw [encodeInto_eq_writeAll_text written, part, Attempt.andThen_fail, start]
  refine ⟨_, rfl, ?_, rfl⟩
  simp [ByteSink.toList, following, storing, storedBy]

end

open ByteSink in
/-- The calls to a sink turn out as planned, and its flush fails or not. If, until the text
is stored, no call fails but interrupted ones, and no byte is interrupted for ever, the
sink ends up with the text and is flushed once, and that decides how the encoding ends.
Otherwise the first call that fails ends it: the sink has the bytes stored before, which
are not all, it is not flushed, and the failure is reported. No call behind those is looked
at. -/
theorem encodeInto_planned (settings : Settings) (v : Value) :
    ∃ text, encodeBytes settings v = .ok text ∧
      ∀ (plan : Nat → CallOutcome) (flushFault : Option IoError),
        ((∀ call, storedBy plan call < text.length → (plan call).refusal? = none ∧
            ∃ later, call ≤ later ∧ ¬ (plan later).isInterrupted) →
          ∃ enough, storedBy plan enough = text.length ∧ ∀ calls, enough ≤ calls →
            ∃ sink, encodeInto settings v (following plan calls flushFault) =
                ⟨sink, flushFault⟩ ∧ sink.toList = text ∧ sink.flushes = 1) ∧
        ((∃ call, storedBy plan call < text.length ∧ (plan call).refusal? ≠ none) →
          ∃ call reason, storedBy plan call < text.length ∧
            (plan call).refusal? = some reason ∧
            (∀ earlier < call, (plan earlier).refusal? = none) ∧ ∀ calls, call < calls →
              ∃ sink, encodeInto settings v (following plan calls flushFault) =
                  .fail sink reason ∧
                sink.toList = text.take (storedBy plan call) ∧ sink.flushes = 0) := by
  refine ⟨_, encodeBytes_eq settings v, ?_⟩
  intro plan flushFault
  have written := encodeBytes_eq settings v
  constructor
  · intro goes
    obtain ⟨enough, all⟩ := exists_storedBy_eq goes
    refine ⟨enough, all, fun calls _ => ?_⟩
    exact encodeInto_following_of_no_refusal written (fun call missing => (goes call missing).1)
      calls flushFault
  · rintro ⟨call, missing, fails⟩
    obtain ⟨first, reason, bound, refused, earlier⟩ := exists_first_refusal fails
    have atMost : storedBy plan first ≤ storedBy plan call := storedBy_mono bound
    have short := Nat.lt_of_le_of_lt atMost missing
    exact ⟨first, reason, short, refused, earlier, fun calls made =>
      encodeInto_following_refused written short refused earlier made flushFault⟩

open ByteSink in
/-- Two tokens on lines of their own. One sink interrupts the line break and fails to be
flushed; the other takes the line break and then nothing. -/
theorem encodeInto_planned_lines :
    let settings : Settings := { mode := .plain, width := 1 }
    let again : IoError := ⟨.interrupted, "again"⟩
    let full : IoError := ⟨.named "StorageFull", "no space"⟩
    let sound : Nat → CallOutcome := fun call => if call = 1 then .failed again else .stored
    let short : Nat → CallOutcome := fun call =>
      if call = 0 then .failed again else if call = 3 then .nothing else .stored
    (∃ sink, encodeInto settings (.bool true) (following sound 4 (some full)) =
        ⟨sink, some full⟩ ∧ sink.toList = [122, 10, 111] ∧ sink.flushes = 1) ∧
      ∃ sink, encodeInto settings (.bool true) (following short 4 none) =
        .fail sink .nothingWritten ∧ sink.toList = [122, 10] ∧ sink.flushes = 0 := by
  intro settings again full sound short
  obtain ⟨text, written, planned⟩ := encodeInto_planned settings (.bool true)
  have lines : encodeBytes settings (.bool true) = .ok [122, 10, 111] := by
    rw [encodeBytes_eq]
    rfl
  obtain rfl : text = [122, 10, 111] := Except.ok.inj (written.symm.trans lines)
  constructor
  · have goes : ∀ call, storedBy sound call < 3 → (sound call).refusal? = none ∧
        ∃ later, call ≤ later ∧ ¬ (sound later).isInterrupted := by
      intro call _
      refine ⟨?_, call + 2, Nat.le_add_right _ _, ?_⟩
      · by_cases second : call = 1
        · rw [second]
          rfl
        · rw [show sound call = .stored from if_neg second]
          rfl
      · rw [show sound (call + 2) = .stored from if_neg (by omega)]
        nofun
    obtain ⟨enough, all, same⟩ := (planned sound (some full)).1 goes
    have four : enough ≤ 4 := by
      refine Nat.le_of_not_lt fun more => ?_
      have most : storedBy sound 5 ≤ storedBy sound enough := storedBy_mono more
      rw [all] at most
      exact absurd most (by decide)
    exact same 4 four
  · obtain ⟨call, reason, missing, refused, earlier, same⟩ :=
      (planned short none).2 ⟨3, by decide, nofun⟩
    have three : call = 3 := by
      by_cases first : call = 0
      · rw [first] at refused
        cases refused
      · by_cases fourth : call = 3
        · exact fourth
        · rw [show short call = .stored by simp only [short, if_neg first, if_neg fourth]]
            at refused
          cases refused
    subst three
    obtain rfl := Option.some.inj refused
    exact same 4 (by decide)

end StackText
