import StackText.Sink.Bytes
import StackText.Entries

/-!
# Writing to a sink whose calls can fail

A call that is interrupted is made again; the first call that fails in another way ends the
writing. So of a schedule only two things matter: how many bytes are stored before that
call, and why it fails. If all bytes are stored before it, it is never made.
-/
namespace StackText

namespace CallOutcome

/-- Whether a call is interrupted, so that it is made again. -/
def isInterrupted : CallOutcome → Bool
  | .failed reason => reason.kind = .interrupted
  | _ => false

/-- Why a call ends the writing, if it does. To store nothing is a failure, too. -/
def refusal? : CallOutcome → Option IoError
  | .stored => none
  | .nothing => some .nothingWritten
  | .failed reason => if reason.kind = .interrupted then none else some reason

theorem stored_or_interrupted {outcome : CallOutcome} (h : outcome.refusal? = none) :
    outcome = .stored ∨ ∃ reason, outcome = .failed reason ∧ reason.kind = .interrupted := by
  cases outcome with
  | stored => exact .inl rfl
  | nothing => cases h
  | failed reason =>
      by_cases interrupted : reason.kind = .interrupted
      · exact .inr ⟨reason, rfl, interrupted⟩
      · rw [refusal?, if_neg interrupted] at h
        cases h

theorem count_stored_cons_failed (reason : IoError) (calls : List CallOutcome) :
    (failed reason :: calls).count stored = calls.count stored := by
  have other : failed reason ≠ stored := nofun
  exact List.count_cons_of_ne other

end CallOutcome

namespace ByteSink

/-- Writes bytes one after another until a call fails for good. -/
def writeAll (sink : ByteSink) (bytes : Bytes) : Attempt IoError ByteSink :=
  Attempt.runAll write sink bytes

/-- What is left of a sink that has stored more bytes and has other calls to come. -/
def storing (sink : ByteSink) (bytes : Bytes) (schedule : List CallOutcome) : ByteSink :=
  { sink with bytes := sink.bytes ++ bytes.toArray, schedule }

section
variable {sink : ByteSink} {b : UInt8} {bytes : Bytes} {rest : List CallOutcome}
  {reason : IoError}

theorem writeAll_nil (sink : ByteSink) : sink.writeAll [] = .ok sink := rfl

theorem writeAll_cons (sink : ByteSink) (b : UInt8) (bytes : Bytes) :
    sink.writeAll (b :: bytes) = (sink.write b).andThen fun sink => sink.writeAll bytes := rfl

theorem write_stored (b : UInt8) (h : sink.schedule = .stored :: rest) :
    sink.write b = .ok { sink with bytes := sink.bytes.push b, schedule := rest } := by
  rw [write, h, writeWith]

theorem write_unscheduled (b : UInt8) (h : sink.schedule = []) :
    sink.write b = .ok { sink with bytes := sink.bytes.push b } := by
  rw [write, h, writeWith, ← h]

theorem write_refused {outcome : CallOutcome} (b : UInt8) (h : sink.schedule = outcome :: rest)
    (refused : outcome.refusal? = some reason) :
    sink.write b = .fail { sink with schedule := rest } reason := by
  rw [write, h]
  cases outcome with
  | stored => cases refused
  | nothing =>
      obtain rfl := Option.some.inj refused
      rfl
  | failed other =>
      rw [CallOutcome.refusal?] at refused
      split at refused
      · cases refused
      · rename_i final
        obtain rfl := Option.some.inj refused
        rw [writeWith, if_neg final]

/-- Writing never reads the schedule from the sink once the calls are given. -/
theorem writeWith_schedule (b : UInt8) (sink : ByteSink) (other calls : List CallOutcome) :
    writeWith b { sink with schedule := other } calls = writeWith b sink calls := by
  induction calls with
  | nil => rfl
  | cons outcome calls ih =>
      cases outcome with
      | stored => rfl
      | nothing => rfl
      | failed reason => rw [writeWith, writeWith, ih]

theorem write_interrupted (b : UInt8) (h : sink.schedule = .failed reason :: rest)
    (interrupted : reason.kind = .interrupted) :
    sink.write b = write { sink with schedule := rest } b := by
  rw [write, h, writeWith, if_pos interrupted]
  exact (writeWith_schedule b sink rest rest).symm

/-- Whatever becomes of the calls for a byte, it is stored or the writing fails, and a
failure takes at least one of the calls that were to come. -/
theorem write_cases (sink : ByteSink) (b : UInt8) :
    (∃ s : ByteSink, sink.write b = .ok s ∧ s.toList = sink.toList ++ [b] ∧
      s.schedule.length ≤ sink.schedule.length) ∨
    ∃ (s : ByteSink) (reason : IoError), sink.write b = .fail s reason ∧
      s.toList = sink.toList ∧ s.schedule.length < sink.schedule.length := by
  rw [write]
  induction sink.schedule with
  | nil => exact .inl ⟨_, rfl, Array.toList_push, Nat.le_refl 0⟩
  | cons outcome rest ih =>
      cases outcome with
      | stored => exact .inl ⟨_, rfl, Array.toList_push, Nat.le_succ _⟩
      | nothing => exact .inr ⟨_, _, rfl, rfl, Nat.lt_succ_self _⟩
      | failed reason =>
          rw [writeWith]
          split
          · rcases ih with ⟨s, write, holds, left⟩ | ⟨s, why, write, same, left⟩
            · exact .inl ⟨s, write, holds, Nat.le_succ_of_le left⟩
            · exact .inr ⟨s, why, write, same, Nat.lt_succ_of_lt left⟩
          · exact .inr ⟨_, _, rfl, rfl, Nat.lt_succ_self _⟩

end

theorem storing_nil (sink : ByteSink) : sink.storing [] sink.schedule = sink := by
  simp [storing]

theorem storing_push (sink : ByteSink) (b : UInt8) (bytes : Bytes)
    (others left : List CallOutcome) :
    ({ sink with bytes := sink.bytes.push b, schedule := others } : ByteSink).storing bytes left =
      sink.storing (b :: bytes) left := by
  simp [storing]

section
variable {sink : ByteSink} {bytes : Bytes}

theorem writeAll_unscheduled (h : sink.schedule = []) :
    sink.writeAll bytes = .ok (sink.storing bytes []) := by
  induction bytes generalizing sink with
  | nil =>
      rw [writeAll_nil, ← h, storing_nil]
  | cons b bytes ih =>
      have written := @ih { sink with bytes := sink.bytes.push b } h
      rw [writeAll_cons, write_unscheduled b h, Attempt.andThen_ok, written]
      exact congrArg Attempt.ok (storing_push sink b bytes sink.schedule [])

/-- As long as bytes are missing no call fails for good. Then all of them are stored. -/
theorem writeAll_of_no_refusal
    (untroubled : ∀ (i : Nat) (outcome : CallOutcome), sink.schedule[i]? = some outcome →
      (sink.schedule.take i).count .stored < bytes.length → outcome.refusal? = none) :
    ∃ left, sink.writeAll bytes = .ok (sink.storing bytes left) := by
  generalize calls : sink.schedule = schedule at untroubled
  induction schedule generalizing sink bytes with
  | nil => exact ⟨[], writeAll_unscheduled calls⟩
  | cons first rest ih =>
      cases bytes with
      | nil => exact ⟨sink.schedule, congrArg Attempt.ok sink.storing_nil.symm⟩
      | cons b bytes =>
          rcases CallOutcome.stored_or_interrupted
            (untroubled 0 first rfl (Nat.zero_lt_succ _)) with rfl | ⟨reason, rfl, interrupted⟩
          · have later : ∀ (i : Nat) (outcome : CallOutcome), rest[i]? = some outcome →
                (rest.take i).count .stored < bytes.length → outcome.refusal? = none := by
              intro i outcome at_ missing
              refine untroubled (i + 1) outcome at_ ?_
              rw [List.take_succ_cons, List.count_cons_self]
              exact Nat.succ_lt_succ missing
            obtain ⟨left, written⟩ :=
              @ih { sink with bytes := sink.bytes.push b, schedule := rest } bytes rfl later
            refine ⟨left, ?_⟩
            rw [writeAll_cons, write_stored b calls, Attempt.andThen_ok, written, storing_push]
          · have later : ∀ (i : Nat) (outcome : CallOutcome), rest[i]? = some outcome →
                (rest.take i).count .stored < (b :: bytes).length → outcome.refusal? = none := by
              intro i outcome at_ missing
              refine untroubled (i + 1) outcome at_ ?_
              rwa [List.take_succ_cons, CallOutcome.count_stored_cons_failed]
            obtain ⟨left, written⟩ := @ih { sink with schedule := rest } (b :: bytes) rfl later
            refine ⟨left, ?_⟩
            rw [writeAll_cons, write_interrupted b calls interrupted]
            exact written

/-- The first call that fails for good ends the writing, if a byte is missing by then. -/
theorem writeAll_refused {i : Nat} {outcome : CallOutcome} {reason : IoError}
    (at_ : sink.schedule[i]? = some outcome) (refused : outcome.refusal? = some reason)
    (earlier : ∀ o ∈ sink.schedule.take i, o.refusal? = none)
    (missing : (sink.schedule.take i).count .stored < bytes.length) :
    sink.writeAll bytes =
      .fail (sink.storing (bytes.take ((sink.schedule.take i).count .stored))
        (sink.schedule.drop (i + 1))) reason := by
  generalize calls : sink.schedule = schedule at at_ earlier missing
  induction schedule generalizing sink bytes i with
  | nil => cases at_
  | cons first rest ih =>
      cases bytes with
      | nil => cases missing
      | cons b bytes =>
          cases i with
          | zero =>
              obtain rfl : first = outcome := Option.some.inj at_
              rw [writeAll_cons, write_refused b calls refused, Attempt.andThen_fail]
              simp [storing]
          | succ i =>
              obtain ⟨goes, later⟩ := List.forall_mem_cons.1 earlier
              rcases CallOutcome.stored_or_interrupted goes with rfl | ⟨_, rfl, interrupted⟩
              · rw [List.take_succ_cons, List.count_cons_self] at missing ⊢
                have written :=
                  @ih { sink with bytes := sink.bytes.push b, schedule := rest } bytes i rfl at_
                    later (Nat.lt_of_succ_lt_succ missing)
                rw [writeAll_cons, write_stored b calls, Attempt.andThen_ok, written, storing_push]
                rfl
              · rw [List.take_succ_cons, CallOutcome.count_stored_cons_failed] at missing ⊢
                have written :=
                  @ih { sink with schedule := rest } (b :: bytes) i rfl at_ later missing
                rw [writeAll_cons, write_interrupted b calls interrupted]
                exact written

end

/-- A sink whose first calls turn out as planned. -/
def following (plan : Nat → CallOutcome) (calls : Nat) (flushFault : Option IoError) : ByteSink :=
  { schedule := (List.range calls).map plan, flushFault }

/-- How many bytes the first calls of a plan store. -/
def storedBy (plan : Nat → CallOutcome) (calls : Nat) : Nat :=
  ((List.range calls).map plan).count .stored

section
variable {plan : Nat → CallOutcome} {call calls : Nat}

theorem storedBy_succ (plan : Nat → CallOutcome) (calls : Nat) :
    storedBy plan (calls + 1) = storedBy plan calls + [plan calls].count .stored := by
  rw [storedBy, List.range_succ, List.map_append, List.count_append]
  rfl

theorem storedBy_mono (h : call ≤ calls) : storedBy plan call ≤ storedBy plan calls := by
  induction h with
  | refl => exact Nat.le_refl _
  | step _ ih =>
      rw [storedBy_succ]
      exact Nat.le_add_right_of_le ih

theorem take_following (h : call ≤ calls) :
    ((List.range calls).map plan).take call = (List.range call).map plan := by
  rw [← List.map_take, List.take_range, Nat.min_eq_left h]

theorem getElem?_following {outcome : CallOutcome}
    (h : ((List.range calls).map plan)[call]? = some outcome) :
    call < calls ∧ plan call = outcome := by
  rw [List.getElem?_map, Option.map_eq_some_iff] at h
  obtain ⟨i, at_, rfl⟩ := h
  obtain ⟨bound, rfl⟩ := List.getElem?_eq_some_iff.1 at_
  rw [List.length_range] at bound
  rw [List.getElem_range]
  exact ⟨bound, rfl⟩

/-- A plan that neither fails nor interrupts a missing byte for ever stores all bytes. -/
theorem exists_storedBy_eq {bytes : Nat}
    (goes : ∀ call, storedBy plan call < bytes →
      (plan call).refusal? = none ∧ ∃ later, call ≤ later ∧ ¬ (plan later).isInterrupted) :
    ∃ enough, storedBy plan enough = bytes := by
  -- The next byte is stored at the latest by the next call that is not interrupted.
  have next (distance call : Nat) (missing : storedBy plan call < bytes)
      (done : ¬ (plan (call + distance)).isInterrupted) :
      ∃ enough, storedBy plan enough = storedBy plan call + 1 := by
    induction distance generalizing call with
    | zero =>
        rcases CallOutcome.stored_or_interrupted (goes call missing).1 with
          stored | ⟨reason, failed, interrupted⟩
        · exact ⟨call + 1, by rw [storedBy_succ, stored]; rfl⟩
        · refine absurd ?_ done
          rw [Nat.add_zero, failed]
          exact decide_eq_true interrupted
    | succ distance ih =>
        rcases CallOutcome.stored_or_interrupted (goes call missing).1 with
          stored | ⟨reason, failed, interrupted⟩
        · exact ⟨call + 1, by rw [storedBy_succ, stored]; rfl⟩
        · have same : storedBy plan (call + 1) = storedBy plan call := by
            rw [storedBy_succ, failed, CallOutcome.count_stored_cons_failed]
            rfl
          rw [← same] at missing ⊢
          exact ih (call + 1) missing (by rwa [Nat.add_right_comm])
  have reached (n : Nat) (most : n ≤ bytes) : ∃ enough, storedBy plan enough = n := by
    induction n with
    | zero => exact ⟨0, rfl⟩
    | succ n ih =>
        obtain ⟨call, rfl⟩ := ih (Nat.le_of_succ_le most)
        obtain ⟨-, later, behind, done⟩ := goes call most
        obtain ⟨distance, rfl⟩ := Nat.exists_eq_add_of_le behind
        exact next distance call most done
  exact reached bytes (Nat.le_refl bytes)

theorem exists_first_refusal (h : (plan call).refusal? ≠ none) :
    ∃ first reason, first ≤ call ∧ (plan first).refusal? = some reason ∧
      ∀ earlier < first, (plan earlier).refusal? = none := by
  induction call using Nat.strongRecOn with
  | ind call ih =>
      by_cases earliest : ∀ earlier < call, (plan earlier).refusal? = none
      · obtain ⟨reason, refused⟩ := Option.ne_none_iff_exists'.1 h
        exact ⟨call, reason, Nat.le_refl call, refused, earliest⟩
      · simp only [Classical.not_forall] at earliest
        obtain ⟨earlier, before, refused⟩ := earliest
        obtain ⟨first, reason, bound, rest⟩ := ih earlier before refused
        exact ⟨first, reason, Nat.le_trans bound (Nat.le_of_lt before), rest⟩

end

end ByteSink
end StackText
