import StackText.Proofs.Sink.Emitter

/-!
# One emitter through many values

An emitter on a tape that refuses calls is asked for one value after another and goes on
after failures. It keeps nothing of a value that it failed at: whatever came before, its
count is the number of opcodes on the tape (`Emitter.Follows`), and what the values to come
add to the tape depends on the number of calls alone (`Emitter.eq_behind`). So a value that
is reached after any history is emitted up to the first refusal behind the calls so far
(`Emitter.value_after_history`).
-/
namespace StackText
namespace Emitter

/-- An emitter on an empty tape that has been called so often. -/
def onTape (refuses : Nat → Bool) (reason : Nat → IoError) (calls : Nat) : Emitter OpcodeTape :=
  { sink := { calls, refuses, reason } }

/-- The same emitter with more opcodes on its tape, before all others. -/
def behind (before : List Opcode) (e : Emitter OpcodeTape) : Emitter OpcodeTape :=
  { sink := { e.sink with stored := before.toArray ++ e.sink.stored }
    emitted := before.length + e.emitted }

/-- What holds of an emitter on a tape throughout: the calls that are refused are those that
were to be, and the count is that of the opcodes on the tape. -/
structure Follows (refuses : Nat → Bool) (reason : Nat → IoError) (e : Emitter OpcodeTape) :
    Prop where
  refuses : e.sink.refuses = refuses
  reason : e.sink.reason = reason
  tally : e.emitted = e.sink.toList.length

section
variable {refuses : Nat → Bool} {reason : Nat → IoError}

theorem follows_onTape (calls : Nat) : Follows refuses reason (onTape refuses reason calls) :=
  ⟨rfl, rfl, rfl⟩

theorem follows_put {e : Emitter OpcodeTape} (h : Follows refuses reason e) (op : Opcode) :
    Follows refuses reason (e.put op).state := by
  rw [put]
  cases turn : e.sink.refuses e.sink.calls with
  | false =>
      rw [OpcodeTape.put_taken turn]
      refine ⟨h.refuses, h.reason, ?_⟩
      have tally := congrArg (· + 1) h.tally
      simpa using tally
  | true =>
      rw [OpcodeTape.put_refused turn]
      refine ⟨h.refuses, h.reason, ?_⟩
      simpa using h.tally

theorem follows_value {e : Emitter OpcodeTape} (h : Follows refuses reason e) (v : Value) :
    Follows refuses reason (e.value v).state := by
  rw [value_eq]
  exact Attempt.runAll_preserves (P := Follows refuses reason) (fun _ op h => follows_put h op) h
    v.program

/-- Apart from what it has put on the tape, an emitter is a new one after as many calls. -/
theorem eq_behind {e : Emitter OpcodeTape} (h : Follows refuses reason e) :
    e = (onTape refuses reason e.sink.calls).behind e.sink.toList := by
  obtain ⟨rfl, rfl, tally⟩ := h
  obtain ⟨tape, emitted⟩ := e
  obtain rfl : emitted = tape.toList.length := tally
  simp [behind, onTape, OpcodeTape.toList]

end

theorem put_behind (before : List Opcode) (e : Emitter OpcodeTape) (op : Opcode) :
    (e.behind before).put op = (e.put op).map (behind before) := by
  rw [put, put]
  cases turn : e.sink.refuses e.sink.calls with
  | false =>
      rw [OpcodeTape.put_taken turn, @OpcodeTape.put_taken (e.behind before).sink turn op]
      simp [behind, OpcodeTape.storing, Attempt.map, Attempt.ok, Attempt.andThen, Nat.add_assoc]
  | true =>
      rw [OpcodeTape.put_refused turn,
        @OpcodeTape.put_refused (e.behind before).sink turn op]
      simp [behind, OpcodeTape.storing, Attempt.map, Attempt.fail, Attempt.andThen]

/-- Nothing that is on the tape makes a difference to what comes behind it. -/
theorem value_behind (before : List Opcode) (e : Emitter OpcodeTape) (v : Value) :
    (e.behind before).value v = (e.value v).map (behind before) := by
  rw [value_eq, value_eq]
  exact Attempt.runAll_map (put_behind before) e v.program

section
variable {e : Emitter OpcodeTape} {v : Value}

theorem value_taken (free : ∀ k < v.program.length, ¬ e.sink.Refuses k) :
    (e.value v).fault = none ∧
      (e.value v).state.sink = e.sink.storing v.program v.program.length := by
  have sink := (e.map_sink_value v).trans (OpcodeTape.putAll_taken free)
  exact ⟨congrArg Attempt.fault sink, congrArg Attempt.state sink⟩

theorem value_refused {k : Nat} (bound : k < v.program.length) (refused : e.sink.Refuses k)
    (earlier : ∀ j < k, ¬ e.sink.Refuses j) :
    (e.value v).fault = some (e.sink.reason (e.sink.calls + k)) ∧
      (e.value v).state.sink = e.sink.storing (v.program.take k) (k + 1) := by
  have sink := (e.map_sink_value v).trans (OpcodeTape.putAll_refused bound refused earlier)
  exact ⟨congrArg Attempt.fault sink, congrArg Attempt.state sink⟩

theorem fault_value_isSome_iff :
    (e.value v).fault.isSome ↔ ∃ k < v.program.length, e.sink.Refuses k := by
  rcases e.sink.free_or_refused v.program.length with free | ⟨k, bound, refused, earlier⟩
  · rw [(value_taken free).1]
    refine ⟨nofun, ?_⟩
    rintro ⟨k, bound, refused⟩
    exact absurd refused (free k bound)
  · rw [(value_refused bound refused earlier).1]
    exact ⟨fun _ => ⟨k, bound, refused⟩, fun _ => rfl⟩

theorem sink_value_of_succeeds (succeeds : (e.value v).fault = none) :
    (e.value v).state.sink = e.sink.storing v.program v.program.length := by
  have free : ∀ k < v.program.length, ¬ e.sink.Refuses k := by
    intro k bound refused
    have fault : (e.value v).fault.isSome := fault_value_isSome_iff.2 ⟨k, bound, refused⟩
    rw [succeeds] at fault
    cases fault
  exact (value_taken free).2

namespace Follows
variable {refuses : Nat → Bool} {reason : Nat → IoError} (h : Follows refuses reason e)
include h

theorem refuses_iff (k : Nat) : e.sink.Refuses k ↔ refuses (e.sink.calls + k) := by
  rw [OpcodeTape.Refuses, h.refuses]

/-- With all calls counted, those of a value are the next as many as its program is long. -/
theorem fault_value_isSome_iff :
    (e.value v).fault.isSome ↔
      ∃ i, e.sink.calls ≤ i ∧ i < e.sink.calls + v.program.length ∧ refuses i := by
  refine Emitter.fault_value_isSome_iff.trans ⟨?_, ?_⟩
  · rintro ⟨k, bound, refused⟩
    exact ⟨e.sink.calls + k, Nat.le_add_right _ k, Nat.add_lt_add_left bound _,
      (h.refuses_iff k).1 refused⟩
  · rintro ⟨i, reached, bound, refused⟩
    obtain ⟨k, rfl⟩ := Nat.exists_eq_add_of_le reached
    exact ⟨k, Nat.lt_of_add_lt_add_left bound, (h.refuses_iff k).2 refused⟩

theorem value_refused {i : Nat} (reached : e.sink.calls ≤ i)
    (bound : i < e.sink.calls + v.program.length) (refused : refuses i)
    (first : ∀ j, e.sink.calls ≤ j → j < i → ¬ refuses j) :
    (e.value v).fault = some (reason i) ∧
      (e.value v).state.sink.toList = e.sink.toList ++ v.program.take (i - e.sink.calls) ∧
      (e.value v).state.sink.calls = i + 1 := by
  obtain ⟨k, rfl⟩ := Nat.exists_eq_add_of_le reached
  have free : ∀ j < k, ¬ e.sink.Refuses j := fun j before refuses =>
    first _ (Nat.le_add_right _ j) (Nat.add_lt_add_left before _) ((h.refuses_iff j).1 refuses)
  obtain ⟨fault, sink⟩ := Emitter.value_refused (Nat.lt_of_add_lt_add_left bound)
    ((h.refuses_iff k).2 refused) free
  rw [fault, h.reason, sink, OpcodeTape.toList_storing, Nat.add_sub_cancel_left]
  exact ⟨rfl, rfl, rfl⟩

/-- What values to come leave behind, apart from what is on the tape already. -/
theorem runEach_value (later : List Value) :
    (Attempt.runEach value e later).1 =
      (Attempt.runEach value (onTape refuses reason e.sink.calls) later).1.map
        (Attempt.map (behind e.sink.toList)) :=
  (congrArg (fun e => (Attempt.runEach value e later).1) (eq_behind h)).trans
    (Attempt.runEach_map (value_behind _) _ later)

end Follows

end

/-- After any history of values, the next one fails if and only if a call is refused among
as many as its program is long. Of these the first to be refused ends the walk: its reason
is reported, the opcodes before it are on the tape, and no other call is made. Without one
the whole program is put on the tape. The count is that of the opcodes on the tape, and the
values that follow add to it what they would add to an empty one. -/
theorem value_after_history (refuses : Nat → Bool) (reason : Nat → IoError)
    (earlier : List Value) (v : Value) :
    let e := (Attempt.runEach value (onTape refuses reason 0) earlier).2
    let c := e.sink.calls
    let a := e.value v
    (a.fault.isSome ↔ ∃ i, c ≤ i ∧ i < c + v.program.length ∧ refuses i) ∧
      (∀ i, c ≤ i → i < c + v.program.length → refuses i →
        (∀ j, c ≤ j → j < i → ¬ refuses j) →
          a.fault = some (reason i) ∧
            a.state.sink.toList = e.sink.toList ++ v.program.take (i - c) ∧
            a.state.sink.calls = i + 1) ∧
      (a.fault = none →
        a.state.sink.toList = e.sink.toList ++ v.program ∧
          a.state.sink.calls = c + v.program.length) ∧
      a.state.emitted = a.state.sink.toList.length ∧
      ∀ later : List Value,
        (Attempt.runEach value a.state later).1 =
          (Attempt.runEach value (onTape refuses reason a.state.sink.calls) later).1.map
            (Attempt.map (behind a.state.sink.toList)) := by
  intro e c a
  have follows : Follows refuses reason e :=
    Attempt.runEach_preserves (P := Follows refuses reason) (fun _ v h => follows_value h v)
      (follows_onTape 0) earlier
  have kept : Follows refuses reason a.state := follows_value follows v
  refine ⟨follows.fault_value_isSome_iff, fun i => follows.value_refused, fun succeeds => ?_,
    kept.tally, kept.runEach_value⟩
  have sink := sink_value_of_succeeds succeeds
  exact ⟨by rw [sink, OpcodeTape.toList_storing], congrArg OpcodeTape.calls sink⟩

/-- A flag is refused half-way, and then an array inside another, of which all that comes
before its own flag is kept. -/
theorem value_after_history_two_refusals :
    let e := (Attempt.runEach value
      (onTape (fun i => i == 1 || i == 8) (fun _ => .nothingWritten) 0) [.bool true]).2
    let a := e.value (.array [.bool true, .array [.bool true]])
    e.sink.calls = 2 ∧ a.fault = some .nothingWritten ∧
      a.state.sink.toList =
        [.boolNew, .arrNew, .boolNew, .boolNeg, .arrAdd, .arrNew, .boolNew] ∧
      a.state.sink.calls = 9 := by
  have first : ∀ j, 2 ≤ j → j < 8 → ¬ (j == 1 || j == 8) := by
    intro j reached before
    simp only [Bool.or_eq_true, beq_iff_eq]
    omega
  obtain ⟨fault, tape, made⟩ := (value_after_history (fun i => i == 1 || i == 8)
    (fun _ => .nothingWritten) [.bool true] (.array [.bool true, .array [.bool true]])).2.1
      8 (by decide) (by decide) rfl first
  exact ⟨rfl, fault, tape, made⟩

end Emitter
end StackText
