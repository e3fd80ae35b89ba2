import StackText.Proofs.Sink.LineWriter

/-!
# Setting the width of a line writer again

The width can be set at any time, also in the middle of a line. Where the lines begin is read
off the sink here (`linesFrom`): a token that makes the text longer by two bytes has a line
break before it. The column is always the length of the line in progress, so a token goes to
a new line just when that line is as long as the width that was set last. A width below the
column is never met again: until another one is set, the line goes on for ever.
-/
namespace StackText
namespace LineWriter

inductive Directive where
  | write (op : Opcode)
  | setWidth (width : Nat)

namespace Directive

def opcode? : Directive → Option Opcode
  | write op => some op
  | setWidth _ => none

def width? : Directive → Option Nat
  | write _ => none
  | setWidth width => some width

end Directive

def follow (w : LineWriter) : Directive → Attempt IoError LineWriter
  | .write op => w.put op
  | .setWidth width => .ok { w with width }

/-- The lines that tokens are written on, the first of which is in progress. -/
def linesFrom (w : LineWriter) (line : List Opcode) : List Directive → List (List Opcode)
  | [] => [line]
  | .setWidth width :: rest => linesFrom { w with width } line rest
  | .write op :: rest =>
      let next := (w.put op).state
      if next.toList.length = w.toList.length + 2 then line :: linesFrom next [op] rest
      else linesFrom next (line ++ [op]) rest

/-- Lines as text, each of them ended. -/
def ended (a : Alphabet) (lines : List (List Opcode)) : Bytes :=
  lines.flatMap fun line => line.map a.token ++ [newline]

/-- What has become of a writer that was on a line when it has followed directives: there are
lines that it has ended since, and one that it is on. -/
structure Followed (w : LineWriter) (line : List Opcode) (directives : List Directive)
    (v : LineWriter) (done : List (List Opcode)) (last : List Opcode) : Prop where
  column : v.column = last.length
  alphabet : v.alphabet = w.alphabet
  width : v.width = (directives.filterMap Directive.width?).getLast?.getD w.width
  opcodes : done.flatten ++ last = line ++ directives.filterMap Directive.opcode?
  text : ∀ before, w.toList = before ++ line.map w.alphabet.token →
    v.toList = before ++ ended w.alphabet done ++ last.map w.alphabet.token
  lines : ∀ later, w.linesFrom line (directives ++ later) = done ++ v.linesFrom last later

section
variable {w n v : LineWriter} {op : Opcode} {line last : List Opcode} {ops : List Opcode}
  {directives : List Directive}

theorem Wrote.breaks_iff (wrote : Wrote w op n) :
    n.toList.length = w.toList.length + 2 ↔ w.IsFull := by
  rw [wrote.text]
  split <;> simp [*]

theorem linesFrom_write (put : w.put op = .ok n) (line : List Opcode)
    (rest : List Directive) :
    w.linesFrom line (.write op :: rest) =
      if w.IsFull then line :: n.linesFrom [op] rest else n.linesFrom (line ++ [op]) rest := by
  rw [linesFrom, put, Attempt.state_ok]
  simp only [(wrote_of_put put).breaks_iff]

namespace Followed

theorem refl (column : w.column = line.length) : Followed w line [] w [] line where
  column := column
  alphabet := rfl
  width := rfl
  opcodes := (List.append_nil line).symm
  text := fun before text => by rw [text, ended, List.flatMap_nil, List.append_nil]
  lines := fun _ => rfl

theorem trans {middle : List Opcode} {done more : List (List Opcode)}
    {others : List Directive} (first : Followed w line directives n done middle)
    (second : Followed n middle others v more last) :
    Followed w line (directives ++ others) v (done ++ more) last where
  column := second.column
  alphabet := second.alphabet.trans first.alphabet
  width := by
    rw [second.width, first.width, List.filterMap_append, List.getLast?_append]
    cases (others.filterMap Directive.width?).getLast? <;> rfl
  opcodes := by
    rw [List.flatten_append, List.append_assoc, second.opcodes, List.filterMap_append,
      ← List.append_assoc, first.opcodes, List.append_assoc]
  text := fun before text => by
    have middle := first.text before text
    rw [← first.alphabet] at middle ⊢
    rw [second.text _ middle, ended, ended, ended, List.flatMap_append, List.append_assoc before]
  lines := fun later => by
    rw [List.append_assoc, first.lines, second.lines, List.append_assoc]

theorem setWidth (column : w.column = line.length) (width : Nat) :
    Followed w line [.setWidth width] { w with width } [] line where
  column := column
  alphabet := rfl
  width := rfl
  opcodes := (List.append_nil line).symm
  text := (refl column).text
  lines := fun _ => rfl

/-- A token ends the line in progress if this is full, and else it makes it longer. -/
theorem write (column : w.column = line.length) (put : w.put op = .ok n) :
    ∃ done last, Followed w line [.write op] n done last := by
  have wrote := wrote_of_put put
  by_cases full : w.IsFull
  · have column : n.column = [op].length := wrote.column.trans (if_pos full)
    refine ⟨[line], [op], column, wrote.alphabet, wrote.width, ?_, ?_, ?_⟩
    · rw [List.flatten_singleton]
      rfl
    · intro before text
      rw [wrote.text, if_pos full, text]
      simp [ended]
    · intro later
      rw [List.singleton_append, linesFrom_write put, if_pos full]
      rfl
  · have column : n.column = (line ++ [op]).length := by
      rw [wrote.column, if_neg full, column, List.length_append, List.length_singleton]
    refine ⟨[], line ++ [op], column, wrote.alphabet, wrote.width, rfl, ?_, ?_⟩
    · intro before text
      rw [wrote.text, if_neg full, text]
      simp [ended]
    · intro later
      rw [List.singleton_append, linesFrom_write put, if_neg full]
      rfl

end Followed

/-- Directives that are followed leave the writer on a line whose length is its column. -/
theorem exists_followed (column : w.column = line.length)
    (run : Attempt.runAll follow w directives = .ok v) :
    ∃ done last, Followed w line directives v done last := by
  induction directives generalizing w line with
  | nil =>
      obtain rfl : w = v := congrArg Attempt.state run
      exact ⟨[], line, .refl column⟩
  | cons directive rest ih =>
      rw [Attempt.runAll_cons, Attempt.andThen_eq_ok_iff] at run
      obtain ⟨n, turn, later⟩ := run
      obtain ⟨done, middle, first⟩ : ∃ done middle, Followed w line [directive] n done middle := by
        cases directive with
        | setWidth width =>
            obtain rfl : { w with width } = n := congrArg Attempt.state turn
            exact ⟨[], line, .setWidth column width⟩
        | write op => exact Followed.write column turn
      obtain ⟨more, last, second⟩ := ih first.column later
      exact ⟨done ++ more, last, first.trans second⟩

theorem linesFrom_ne_nil (w : LineWriter) (line : List Opcode) (directives : List Directive) :
    w.linesFrom line directives ≠ [] := by
  induction directives generalizing w line with
  | nil => exact List.cons_ne_nil _ _
  | cons directive rest ih =>
      cases directive with
      | setWidth width => exact ih _ _
      | write op =>
          rw [linesFrom]
          split
          · exact List.cons_ne_nil _ _
          · exact ih _ _

/-- As long as the width stays what it is and the column has not passed it, lines that are
ended are full. -/
theorem lines_fit (column : w.column = line.length) (some : 0 < w.width)
    (fits : w.column ≤ w.width)
    (run : Attempt.runAll follow w (ops.map .write) = .ok v) :
    let lines := w.linesFrom line (ops.map .write)
    (∀ line ∈ lines, line.length ≤ w.width) ∧ ∀ line ∈ lines.dropLast, line.length = w.width := by
  induction ops generalizing w line with
  | nil =>
      refine ⟨fun other mem => ?_, nofun⟩
      obtain rfl := List.mem_singleton.1 mem
      exact column ▸ fits
  | cons op rest ih =>
      rw [List.map_cons, Attempt.runAll_cons, Attempt.andThen_eq_ok_iff] at run
      obtain ⟨n, put, later⟩ := run
      have wrote := wrote_of_put put
      rw [← wrote.width] at some fits ⊢
      rw [List.map_cons, linesFrom_write put]
      by_cases full : w.IsFull
      · have single : n.column = [op].length := wrote.column.trans (if_pos full)
        obtain ⟨short, long⟩ := ih single some (single ▸ some) later
        have length : line.length = n.width := by rw [← column, full.2, wrote.width]
        rw [if_pos full]
        refine ⟨List.forall_mem_cons.2 ⟨Nat.le_of_eq length, short⟩, ?_⟩
        rw [List.dropLast_cons_of_ne_nil (linesFrom_ne_nil _ _ _)]
        exact List.forall_mem_cons.2 ⟨length, long⟩
      · have next : n.column = w.column + 1 := wrote.column.trans (if_neg full)
        have longer : n.column = (line ++ [op]).length := by
          rw [next, column, List.length_append, List.length_singleton]
        have room : w.column ≠ n.width := fun last =>
          full ⟨wrote.width ▸ some, last.trans wrote.width⟩
        rw [if_neg full]
        exact ih longer some (next ▸ Nat.lt_of_le_of_ne fits room) later

/-- A line that has passed the width never ends. -/
theorem text_beyond_width (beyond : w.width < w.column)
    (run : Attempt.runAll follow w (ops.map .write) = .ok v) :
    v.toList = w.toList ++ ops.map w.alphabet.token := by
  induction ops generalizing w with
  | nil =>
      obtain rfl : w = v := congrArg Attempt.state run
      exact (List.append_nil _).symm
  | cons op rest ih =>
      rw [List.map_cons, Attempt.runAll_cons, Attempt.andThen_eq_ok_iff] at run
      obtain ⟨n, put, later⟩ := run
      have wrote := wrote_of_put put
      have room : ¬ w.IsFull := fun full => Nat.ne_of_gt beyond full.2
      have next : n.column = w.column + 1 := wrote.column.trans (if_neg room)
      have still : n.width < n.column := by
        rw [wrote.width, next]
        exact Nat.lt_succ_of_lt beyond
      rw [ih still later, wrote.text, if_neg room, wrote.alphabet, List.append_nil,
        List.append_assoc]
      rfl

end

/-- After any tokens and settings of the width, the column is the number of tokens behind the
last line break, and the next token has a line break before it just when the width in force is
positive and equal to that. So when another positive width is set, then until the next setting
no line gets longer than that and each that is ended is full, unless the line in progress is
too long already. If it is, no line break comes any more. -/
theorem lines_between_settings (sink : ByteSink) (alphabet : Alphabet) (width : Nat)
    (directives : List Directive) {w : LineWriter}
    (run : Attempt.runAll follow { sink, alphabet, width } directives = .ok w) :
    let start : LineWriter := { sink, alphabet, width }
    let inForce := (directives.filterMap Directive.width?).getLast?.getD width
    ∃ done line, start.linesFrom [] directives = done ++ [line] ∧
      w.toList = start.toList ++ ended alphabet done ++ line.map alphabet.token ∧
      (done ++ [line]).flatten = directives.filterMap Directive.opcode? ∧
      w.column = line.length ∧
      (∀ op n, w.put op = .ok n →
        n.toList = w.toList ++ (if 0 < inForce ∧ inForce = line.length then [newline] else []) ++
          [alphabet.token op]) ∧
      ∀ (next : Nat) (ops : List Opcode) (v : LineWriter), 0 < next →
        Attempt.runAll follow w (.setWidth next :: ops.map .write) = .ok v →
          ∃ period, start.linesFrom [] (directives ++ .setWidth next :: ops.map .write) =
              done ++ period ∧
            (line.length ≤ next → (∀ line ∈ period, line.length ≤ next) ∧
              ∀ line ∈ period.dropLast, line.length = next) ∧
            (next < line.length → v.toList = w.toList ++ ops.map alphabet.token) := by
  intro start inForce
  have fresh : start.column = ([] : List Opcode).length := rfl
  obtain ⟨done, line, followed⟩ := exists_followed fresh run
  have full : w.IsFull ↔ 0 < inForce ∧ inForce = line.length := by
    rw [IsFull, followed.width, followed.column, eq_comm]
  have single := followed.lines []
  rw [List.append_nil] at single
  refine ⟨done, line, single, ?_, ?_, followed.column, ?_, ?_⟩
  · exact followed.text start.toList (List.append_nil _).symm
  · rw [List.flatten_append, List.flatten_singleton]
    exact followed.opcodes
  · intro op n put
    rw [(wrote_of_put put).text, show w.alphabet = alphabet from followed.alphabet]
    simp only [full]
  · intro next ops v some later
    let renewed : LineWriter := { w with width := next }
    refine ⟨_, followed.lines _, fun fits => ?_, fun beyond => ?_⟩
    · rw [← followed.column] at fits
      have column : renewed.column = line.length := followed.column
      exact lines_fit column some fits later
    · rw [← followed.column] at beyond
      rw [← show w.alphabet = alphabet from followed.alphabet]
      have passed : renewed.width < renewed.column := beyond
      have text := text_beyond_width passed later
      exact text

/-- The width is lowered to one when there are two tokens on the line, so the line goes on. -/
theorem lines_between_settings_lowered :
    let two : List Directive := [.write .nilNew, .write .nilNew]
    let token := Alphabet.ascii.token .nilNew
    ∃ w v, Attempt.runAll follow { width := 3 } two = .ok w ∧
      Attempt.runAll follow w (.setWidth 1 :: two) = .ok v ∧
      v.toList = [token, token, token, token] := by
  intro two token
  have first : (Attempt.runAll follow { width := 3 } two).fault = none := by decide
  have second : (Attempt.runAll follow (Attempt.runAll follow { width := 3 } two).state
      (.setWidth 1 :: two)).fault = none := by decide
  refine ⟨_, _, Attempt.eq_ok first, Attempt.eq_ok second, ?_⟩
  obtain ⟨done, line, -, text, -, column, -, later⟩ :=
    lines_between_settings {} .ascii 3 two (Attempt.eq_ok first)
  have length : line.length = 2 := by
    rw [← column]
    decide
  obtain ⟨-, -, -, beyond⟩ := later 1 [.nilNew, .nilNew] _ Nat.one_pos (Attempt.eq_ok second)
  refine (beyond (length ▸ Nat.one_lt_two)).trans ?_
  decide

end LineWriter
end StackText
