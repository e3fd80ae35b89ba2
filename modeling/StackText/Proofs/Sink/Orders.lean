import StackText.Proofs.Sink.LineWriter

/-!
# A line writer that goes on after failures

A line writer is told to write opcodes and to flush, and goes on whatever fails. Another one,
whose sink never fails, is given the opcodes that the first has written. The two keep the same
text, except when the first has stored a line break whose token then failed: it stands at the
beginning of a line, where the other is at the end of one (`Matches`). The next token puts
them level again, because only the second has a line break to write.
-/
namespace StackText
namespace LineWriter

inductive Order where
  | write (op : Opcode)
  /-- To flush a sink that fails to, if there is a reason. -/
  | flush (fault : Option IoError)

def Order.opcode? : Order → Option Opcode
  | .write op => some op
  | .flush _ => none

def obey (w : LineWriter) : Order → Attempt IoError LineWriter
  | .write op => w.put op
  | .flush fault => ({ w with sink := { w.sink with flushFault := fault } } : LineWriter).flush

/-- What has become of a writer after all orders. -/
def after (w : LineWriter) (orders : List Order) : LineWriter :=
  (Attempt.runEach obey w orders).2

/-- The opcodes that are written, of those that are ordered. -/
def taken (w : LineWriter) (orders : List Order) : List Opcode :=
  (Attempt.granted obey w orders).filterMap Order.opcode?

/-- Whether the line break before a token is stored, but the token fails. -/
def Breaks (w : LineWriter) : Order → Prop
  | .write op => (w.put op).fault ≠ none ∧ (w.put op).state.toList = w.toList ++ [newline]
  | .flush _ => False

/-- Whether a line break is left without a token: one is stored by an order behind the last
opcode that is written. -/
def LeavesBreak (w : LineWriter) (orders : List Order) : Prop :=
  ∃ earlier order later, orders = earlier ++ order :: later ∧
    (w.after earlier).Breaks order ∧ (w.after earlier).taken (order :: later) = []

/-- A caller orders opcodes one after another, each again until it is written, and flushes in
between at will. -/
inductive Persists : LineWriter → List Opcode → LineWriter → Prop
  | done {w : LineWriter} : Persists w [] w
  | written {w final : LineWriter} {op : Opcode} {rest : List Opcode}
      (succeeds : (w.put op).fault = none) (later : Persists (w.put op).state rest final) :
      Persists w (op :: rest) final
  | failed {w final : LineWriter} {op : Opcode} {rest : List Opcode}
      (fails : (w.put op).fault ≠ none) (again : Persists (w.put op).state (op :: rest) final) :
      Persists w (op :: rest) final
  | flushed {w final : LineWriter} {ops : List Opcode} (fault : Option IoError)
      (later : Persists (w.obey (.flush fault)).state ops final) : Persists w ops final

section
variable {w : LineWriter} {order : Order} {orders : List Order}

theorem after_cons (w : LineWriter) (order : Order) (orders : List Order) :
    w.after (order :: orders) = (w.obey order).state.after orders := rfl

theorem taken_cons (w : LineWriter) (order : Order) (orders : List Order) :
    w.taken (order :: orders) = w.taken [order] ++ (w.obey order).state.taken orders := by
  rw [taken, ← List.singleton_append, Attempt.granted_append, List.filterMap_append]
  rfl

theorem taken_flush (w : LineWriter) (fault : Option IoError) : w.taken [.flush fault] = [] := by
  rw [taken, Attempt.granted_cons]
  split <;> rfl

theorem taken_write {op : Opcode} (h : (w.put op).fault = none) : w.taken [.write op] = [op] := by
  have granted : (w.obey (.write op)).fault.isNone := Option.isNone_iff_eq_none.2 h
  rw [taken, Attempt.granted_cons, if_pos granted]
  rfl

theorem taken_write_failed {op : Opcode} (h : (w.put op).fault ≠ none) :
    w.taken [.write op] = [] := by
  have refused : ¬ (w.obey (.write op)).fault.isNone := fun none =>
    h (Option.isNone_iff_eq_none.1 none)
  rw [taken, Attempt.granted_cons, if_neg refused]
  rfl

theorem leavesBreak_nil : ¬ w.LeavesBreak [] := by
  rintro ⟨earlier, order, later, split, -⟩
  cases earlier <;> cases split

theorem leavesBreak_cons :
    w.LeavesBreak (order :: orders) ↔
      (w.Breaks order ∧ w.taken (order :: orders) = []) ∨
        (w.obey order).state.LeavesBreak orders := by
  constructor
  · rintro ⟨earlier, other, later, split, breaks, none⟩
    cases earlier with
    | nil =>
        obtain ⟨rfl, rfl⟩ := List.cons.inj split
        exact .inl ⟨breaks, none⟩
    | cons first earlier =>
        obtain ⟨rfl, rfl⟩ := List.cons.inj split
        exact .inr ⟨earlier, other, later, rfl, breaks, none⟩
  · rintro (⟨breaks, none⟩ | ⟨earlier, other, later, rfl, breaks, none⟩)
    · exact ⟨[], order, orders, rfl, breaks, none⟩
    · exact ⟨order :: earlier, other, later, rfl, breaks, none⟩

end

/-- Where a writer that never fails stands in its text: behind so many full lines. -/
def Placed (w : LineWriter) : Prop :=
  ∃ lines, w.written = lines * w.width + w.column ∧ (0 < w.width → w.column ≤ w.width) ∧
    (w.column = 0 → w.written = 0)

section
variable {w n : LineWriter} {op : Opcode}

theorem Placed.wrote (h : Placed w) (wrote : Wrote w op n) : Placed n := by
  obtain ⟨lines, place, fits, -⟩ := h
  by_cases full : w.IsFull
  · have column := wrote.column.trans (if_pos full)
    refine ⟨lines + 1, ?_, fun some => ?_, fun zero => ?_⟩
    · rw [wrote.written, wrote.width, column, place, full.2, Nat.succ_mul]
    · rwa [column, Nat.succ_le_iff]
    · rw [column] at zero
      cases zero
  · have column := wrote.column.trans (if_neg full)
    refine ⟨lines, ?_, fun some => ?_, fun zero => ?_⟩
    · rw [wrote.written, wrote.width, column, place, Nat.add_assoc]
    · rw [wrote.width] at some ⊢
      rw [column]
      exact Nat.lt_of_le_of_ne (fits some) fun last => full ⟨some, last⟩
    · rw [column] at zero
      cases zero

/-- The next token has to go to a new line just when there are full lines only. -/
theorem Placed.isFull_iff (h : Placed w) :
    w.IsFull ↔ 0 < w.width ∧ 0 < w.written ∧ w.width ∣ w.written := by
  obtain ⟨lines, place, fits, fresh⟩ := h
  constructor
  · rintro ⟨some, full⟩
    have total : w.written = (lines + 1) * w.width := by rw [place, full, Nat.succ_mul]
    rw [total]
    exact ⟨some, Nat.mul_pos lines.succ_pos some, Nat.dvd_mul_left ..⟩
  · rintro ⟨some, written, divides⟩
    have column : w.column ≠ 0 := fun zero => Nat.ne_of_gt written (fresh zero)
    rw [place, Nat.dvd_add_right (Nat.dvd_mul_left ..)] at divides
    exact ⟨some, Nat.le_antisymm (fits some)
      (Nat.le_of_dvd (Nat.pos_of_ne_zero column) divides)⟩

/-- Memory takes every opcode. -/
theorem put_sound (sound : w.sink.schedule = []) (op : Opcode) :
    ∃ n, w.put op = .ok n ∧ n.sink.schedule = [] ∧ Wrote w op n := by
  obtain ⟨n, put, schedule⟩ : ∃ n, w.put op = .ok n ∧ n.sink.schedule = [] := by
    refine ⟨_, put_eq sound op, ?_⟩
    split <;> exact sound
  exact ⟨n, put, schedule, wrote_of_put put⟩

end

/-- Two writers hold the same text and stand at the same column. -/
def Level (w plain : LineWriter) : Prop := w.toList = plain.toList ∧ w.column = plain.column

/-- One writer has already broken the line that the other has yet to break. -/
def Ahead (w plain : LineWriter) : Prop :=
  w.toList = plain.toList ++ [newline] ∧ w.column = 0 ∧ plain.IsFull

/-- What a writer has in common with one that never fails and that has been given what the
first has written. -/
structure Matches (w plain : LineWriter) : Prop where
  alphabet : w.alphabet = plain.alphabet
  width : w.width = plain.width
  written : w.written = plain.written
  sound : plain.sink.schedule = []
  placed : plain.Placed
  place : Level w plain ∨ Ahead w plain

section
variable {w plain : LineWriter} {op : Opcode} {order : Order} {orders : List Order}

theorem Ahead.not_isFull (h : Ahead w plain) : ¬ w.IsFull :=
  fun full => Nat.ne_of_lt full.1 (h.2.1.symm.trans full.2)

theorem Level.text_ne (h : Level w plain) : w.toList ≠ plain.toList ++ [newline] := by
  rw [h.1]
  simp

theorem Level.not_ahead (h : Level w plain) : ¬ Ahead w plain := fun ahead => h.text_ne ahead.1

namespace Matches

theorem level_of_isFull (h : Matches w plain) (full : w.IsFull) : Level w plain :=
  h.place.resolve_right fun ahead => ahead.not_isFull full

theorem isFull_iff (h : Matches w plain) (level : Level w plain) : w.IsFull ↔ plain.IsFull := by
  rw [IsFull, IsFull, h.width, level.2]

theorem ahead_iff (h : Matches w plain) :
    Ahead w plain ↔ w.toList = plain.toList ++ [newline] :=
  ⟨And.left, fun text => h.place.resolve_left fun level => level.text_ne text⟩

/-- A token puts both writers level, whether they were or not. -/
theorem wrote {n : LineWriter} (h : Matches w plain) (wrote : Wrote w op n) :
    ∃ next, plain.put op = .ok next ∧ Matches n next ∧ Level n next := by
  obtain ⟨next, put, sound, plainly⟩ := put_sound h.sound op
  have level : Level n next := by
    rw [Level, wrote.text, plainly.text, wrote.column, plainly.column, h.alphabet]
    rcases h.place with level | ahead
    · simp only [h.isFull_iff level, level.1, level.2, and_self]
    · rw [if_neg ahead.not_isFull, if_neg ahead.not_isFull, if_pos ahead.2.2,
        if_pos ahead.2.2, ahead.1, ahead.2.1, List.append_nil]
      exact ⟨rfl, rfl⟩
  refine ⟨next, put, ⟨?_, ?_, ?_, sound, h.placed.wrote plainly, .inl level⟩, level⟩
  · rw [wrote.alphabet, plainly.alphabet, h.alphabet]
  · rw [wrote.width, plainly.width, h.width]
  · rw [wrote.written, plainly.written, h.written]

/-- A failure that changes the text has broken the line. -/
theorem failed (h : Matches w plain) (fails : (w.put op).fault ≠ none) :
    Matches (w.put op).state plain ∧
      (Ahead (w.put op).state plain ↔ Ahead w plain ∨ w.Breaks (.write op)) := by
  have comes := w.put_comes op
  rw [Breaks]
  generalize w.put op = a at fails comes
  cases comes with
  | token wrote => exact absurd rfl fails
  | @nothing sink _ holds =>
      have same : ({ w with sink } : LineWriter).toList = w.toList := holds
      have ahead : Ahead { w with sink } plain ↔ Ahead w plain := by rw [Ahead, Ahead, same]
      refine ⟨⟨h.alphabet, h.width, h.written, h.sound, h.placed, ?_⟩, ?_⟩
      · exact h.place.imp (fun level => ⟨same.trans level.1, level.2⟩) ahead.2
      · rw [Attempt.state_fail, ahead, same]
        simp
  | @lineBreak sink _ full holds =>
      have level := h.level_of_isFull full
      have ahead : Ahead { w with sink, column := 0 } plain := by
        refine ⟨holds.trans ?_, rfl, (h.isFull_iff level).1 full⟩
        rw [level.1]
      exact ⟨⟨h.alphabet, h.width, h.written, h.sound, h.placed, .inr ahead⟩,
        iff_of_true ahead (.inr ⟨fails, holds⟩)⟩

/-- One order, whatever becomes of it, -/
theorem step (h : Matches w plain) (order : Order) :
    ∃ next, OpcodeSink.putAll plain (w.taken [order]) = .ok next ∧
      Matches (w.obey order).state next ∧
        (Ahead (w.obey order).state next ↔
          w.taken [order] = [] ∧ (Ahead w plain ∨ w.Breaks order)) := by
  cases order with
  | flush fault =>
      rw [taken_flush]
      refine ⟨plain, rfl, ⟨h.alphabet, h.width, h.written, h.sound, h.placed, h.place⟩, ?_⟩
      exact ⟨fun ahead => ⟨rfl, .inl ahead⟩, fun ahead => ahead.2.resolve_right id⟩
  | write op =>
      by_cases succeeds : (w.put op).fault = none
      · obtain ⟨next, plainly, same, level⟩ := h.wrote (wrote_of_put (Attempt.eq_ok succeeds))
        rw [taken_write succeeds]
        exact ⟨next, (Attempt.andThen_ok_right _).trans plainly, same,
          iff_of_false level.not_ahead nofun⟩
      · obtain ⟨same, ahead⟩ := h.failed succeeds
        rw [taken_write_failed succeeds]
        exact ⟨plain, rfl, same, ahead.trans (and_iff_right rfl).symm⟩

/-- and orders one after another. -/
theorem run (h : Matches w plain) (orders : List Order) :
    ∃ next, OpcodeSink.putAll plain (w.taken orders) = .ok next ∧
      Matches (w.after orders) next ∧
        (Ahead (w.after orders) next ↔
          w.taken orders = [] ∧ Ahead w plain ∨ w.LeavesBreak orders) := by
  induction orders generalizing w plain with
  | nil =>
      have nothing : w.taken [] = [] := rfl
      exact ⟨plain, rfl, h, by simp [nothing, leavesBreak_nil, after, Attempt.runEach]⟩
  | cons order rest ih =>
      obtain ⟨next, first, same, ahead⟩ := h.step order
      obtain ⟨last, others, kept, leaves⟩ := ih same
      have all := w.taken_cons order rest
      refine ⟨last, ?_, kept, ?_⟩
      · rw [all, OpcodeSink.putAll_append, first]
        exact others
      · rw [after_cons, leaves, ahead, leavesBreak_cons, all, List.append_eq_nil_iff]
        grind

/-- A caller that persists ends level, because it ends with a token that is written. -/
theorem persists {final : LineWriter} {ops : List Opcode} (persists : Persists w ops final)
    (h : Matches w plain) (level : ops = [] → Level w plain) :
    ∃ next, OpcodeSink.putAll plain ops = .ok next ∧ Matches final next ∧
      Level final next := by
  induction persists generalizing plain with
  | done => exact ⟨plain, rfl, h, level rfl⟩
  | written succeeds later ih =>
      obtain ⟨next, plainly, same, level⟩ := h.wrote (wrote_of_put (Attempt.eq_ok succeeds))
      obtain ⟨last, others, kept⟩ := ih same fun _ => level
      refine ⟨last, ?_, kept⟩
      rw [OpcodeSink.putAll_cons, show OpcodeSink.put plain _ = _ from plainly]
      exact others
  | failed fails again ih => exact ih (h.failed fails).1 nofun
  | flushed fault later ih =>
      exact ih ⟨h.alphabet, h.width, h.written, h.sound, h.placed, h.place⟩ level

end Matches

theorem schedule_put_lt (fails : (w.put op).fault ≠ none) :
    (w.put op).state.sink.schedule.length < w.sink.schedule.length := by
  have comes := w.put_comes op
  generalize w.put op = a at fails comes
  cases comes with
  | token wrote => exact absurd rfl fails
  | nothing holds spent => exact spent
  | lineBreak full holds spent => exact spent

/-- No sink can fail for ever, so a caller that persists comes to an end. -/
theorem exists_persists (w : LineWriter) (ops : List Opcode) : ∃ final, Persists w ops final := by
  induction ops generalizing w with
  | nil => exact ⟨w, .done⟩
  | cons op rest ih =>
      -- Every failure leaves fewer calls that can fail.
      induction calls : w.sink.schedule.length using Nat.strongRecOn generalizing w with
      | ind n retry =>
          by_cases succeeds : (w.put op).fault = none
          · obtain ⟨final, later⟩ := ih (w.put op).state
            exact ⟨final, .written succeeds later⟩
          · obtain ⟨final, again⟩ :=
              retry _ (calls ▸ schedule_put_lt succeeds) (w.put op).state rfl
            exact ⟨final, .failed succeeds again⟩

end

/-- Whatever a sink fails at and whatever is ordered, a line writer counts the opcodes that are
written, and the sink holds the text that they come to on a sink that never fails. A line
break can follow, and does just when these opcodes fill all their lines and a later order has
stored the break for a token that has failed. A caller that repeats each order until it
succeeds comes to an end, with the text that it would have had without failures. -/
theorem text_despite_faults (alphabet : Alphabet) (width : Nat) (schedule : List CallOutcome) :
    let start : LineWriter := { sink := { schedule }, alphabet, width }
    let sound : LineWriter := { alphabet, width }
    (∀ orders : List Order,
      let ops := start.taken orders
      let final := start.after orders
      ∃ plain, OpcodeSink.putAll sound ops = .ok plain ∧
        final.written = ops.length ∧
        (final.toList = plain.toList ∨ final.toList = plain.toList ++ [newline]) ∧
        (final.toList = plain.toList ++ [newline] ↔
          0 < width ∧ 0 < ops.length ∧ width ∣ ops.length ∧ start.LeavesBreak orders)) ∧
      ∀ ops : List Opcode,
        (∃ final, Persists start ops final) ∧
          ∀ final, Persists start ops final →
            ∃ plain, OpcodeSink.putAll sound ops = .ok plain ∧
              final.toList = plain.toList ∧ final.written = ops.length := by
  intro start sound
  have level : Level start sound := ⟨rfl, rfl⟩
  have fresh : Matches start sound :=
    ⟨rfl, rfl, rfl, rfl, ⟨0, (Nat.zero_mul _).symm, fun _ => Nat.zero_le _, fun _ => rfl⟩,
      .inl level⟩
  have counted (ops : List Opcode) {plain : LineWriter}
      (run : OpcodeSink.putAll sound ops = .ok plain) :
      plain.width = width ∧ plain.written = ops.length := by
    rw [← Nat.zero_add ops.length]
    exact putAll_counts run
  refine ⟨fun orders => ?_, fun ops => ⟨exists_persists start ops, fun final persists => ?_⟩⟩
  · obtain ⟨plain, run, same, leaves⟩ := fresh.run orders
    obtain ⟨lines, count⟩ := counted _ run
    refine ⟨plain, run, same.written.trans count, same.place.imp And.left And.left, ?_⟩
    rw [← same.ahead_iff]
    have left : Ahead (start.after orders) plain ↔ start.LeavesBreak orders :=
      leaves.trans (or_iff_right fun ahead => level.not_ahead ahead.2)
    refine ⟨fun ahead => ?_, fun breaks => left.2 breaks.2.2.2⟩
    obtain ⟨some, written, divides⟩ := same.placed.isFull_iff.1 ahead.2.2
    rw [lines] at some divides
    rw [count] at written divides
    exact ⟨some, written, divides, left.1 ahead⟩
  · obtain ⟨plain, run, same, level⟩ := fresh.persists persists fun _ => level
    exact ⟨plain, run, level.1, same.written.trans (counted ops run).2⟩

/-- On lines of one token, the break before the second token is stored but the token fails: the
line break stays. If the token is ordered again, it follows this break. -/
theorem text_despite_faults_lone_break :
    let start : LineWriter := { sink := { schedule := [.stored, .stored, .nothing] }, width := 1 }
    let orders : List Order := [.write .nilNew, .write .nilNew, .flush none]
    let token := Alphabet.ascii.token .nilNew
    start.taken orders = [.nilNew] ∧ (start.after orders).toList = [token, newline] ∧
      start.LeavesBreak orders ∧
      ∃ final, Persists start [.nilNew, .nilNew] final ∧
        final.toList = [token, newline, token] := by
  intro start orders token
  obtain ⟨ordered, persistent⟩ := text_despite_faults .ascii 1 [.stored, .stored, .nothing]
  obtain ⟨plain, run, -, -, leaves⟩ := ordered orders
  have text : (start.after orders).toList = [token, newline] := by decide
  have plainText : [token] = plain.toList := congrArg (·.state.toList) run
  obtain ⟨⟨final, persists⟩, same⟩ := persistent [.nilNew, .nilNew]
  obtain ⟨plain, run, finalText, -⟩ := same final persists
  refine ⟨by decide, text, (leaves.1 ?_).2.2.2, final, persists, ?_⟩
  · rw [← plainText]
    exact text
  · rw [finalText]
    exact (congrArg (·.state.toList) run).symm

end LineWriter
end StackText
