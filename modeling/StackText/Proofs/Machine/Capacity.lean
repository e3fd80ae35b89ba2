import StackText.Proofs.Machine.Run

/-!
# What the capacity decides

A machine whose stack grows as needed gives every run its natural course: it ends, or an
operand stops it. `Machine.peak` is the greatest depth on that course. A bounded machine
keeps step with the unbounded one as long as the depth stays within its capacity
(`step_lockstep`). So it goes the whole course if the capacity is at least the peak, and
otherwise overflows at the first opcode whose result would not fit. An overflow can hide
a failure that lies behind it; nothing hides an overflow.
-/
namespace StackText
namespace Machine

/-- The machine with another capacity. -/
def withCapacity (capacity : Nat) (m : Machine) : Machine :=
  { m with stack := { m.stack with capacity } }

/-- A step with room for one value more than there is. No opcode adds more than one. -/
def stepUnbounded (m : Machine) (op : Opcode) : Attempt Trap Machine :=
  (m.withCapacity (m.depth + 1)).step op

def stepsUnbounded (m : Machine) (ops : List Opcode) : Attempt Trap Machine :=
  Attempt.runAll stepUnbounded m ops

/-- The greatest depth of an unbounded run, up to its end or its first failure. -/
def peak (m : Machine) : List Opcode → Nat
  | [] => m.depth
  | op :: rest =>
      match (m.stepUnbounded op).fault with
      | none => max m.depth ((m.stepUnbounded op).state.peak rest)
      | some _ => m.depth

variable {m n : Machine} {op : Opcode} {rest : List Opcode}

theorem depth_le_peak (m : Machine) (ops : List Opcode) : m.depth ≤ m.peak ops := by
  cases ops with
  | nil => exact Nat.le_refl _
  | cons op rest =>
      unfold peak
      split
      · exact Nat.le_max_left _ _
      · exact Nat.le_refl _

theorem peak_cons_of_ok (h : m.stepUnbounded op = .ok n) :
    m.peak (op :: rest) = max m.depth (n.peak rest) := by
  rw [peak, h]
  rfl

theorem peak_cons_of_fail {trap : Trap} (h : m.stepUnbounded op = .fail n trap) :
    m.peak (op :: rest) = m.depth := by
  rw [peak, h]
  rfl

/-- An unbounded run does not look at the capacity. -/
theorem peak_withCapacity (capacity : Nat) (m : Machine) (ops : List Opcode) :
    (m.withCapacity capacity).peak ops = m.peak ops := by
  cases ops <;> rfl

theorem stepsUnbounded_withCapacity (before after : Nat) (m : Machine) (ops : List Opcode) :
    ((m.withCapacity before).stepsUnbounded ops).map (withCapacity after) =
      (m.stepsUnbounded ops).map (withCapacity after) := by
  cases ops <;> rfl

theorem fault_stepsUnbounded (capacity : Nat) (m : Machine) (ops : List Opcode) :
    ((m.withCapacity capacity).stepsUnbounded ops).fault = (m.stepsUnbounded ops).fault := by
  have same := congrArg Attempt.fault (stepsUnbounded_withCapacity capacity 0 m ops)
  exact same

theorem depth_stepsUnbounded (capacity : Nat) (m : Machine) (ops : List Opcode) :
    ((m.withCapacity capacity).stepsUnbounded ops).state.depth =
      (m.stepsUnbounded ops).state.depth := by
  have same :=
    congrArg (fun a => a.state.depth) (stepsUnbounded_withCapacity capacity 0 m ops)
  exact same

theorem stepUnbounded_of_makes {v : Value} {below : List Value}
    (h : op.Makes m.stack.values v below) :
    m.stepUnbounded op = .ok ((m.withCapacity (m.depth + 1)).advanced (v :: below)) := by
  have makes : op.Makes (m.withCapacity (m.depth + 1)).stack.values v below := h
  have room : below.length < m.depth + 1 := Nat.lt_succ_of_le h.suffix.length_le
  rw [stepUnbounded, step_of_makes makes]
  exact if_pos room

/-- A bounded step is the unbounded one if its result fits; if not, it overflows and
leaves everything in place. An operand stops both alike. -/
theorem step_lockstep (m : Machine) (op : Opcode) :
    (∃ n, m.stepUnbounded op = .ok n ∧ n.depth ≤ m.depth + 1 ∧
      (n.depth ≤ m.capacity → m.step op = .ok (n.withCapacity m.capacity)) ∧
      (m.depth ≤ m.capacity → m.capacity < n.depth →
        m.step op = .fail m (.overflow op m.capacity))) ∨
    ∃ n trap, m.stepUnbounded op = .fail n trap ∧ (∀ other c, trap ≠ .overflow other c) ∧
      m.step op = .fail (n.withCapacity m.capacity) trap := by
  rcases op.makes_or_refuses m.stack.values with ⟨v, below, h⟩ | ⟨below, trap, h⟩
  · have lower : below.length ≤ m.depth := h.suffix.length_le
    refine .inl ⟨_, stepUnbounded_of_makes h, Nat.succ_le_succ lower, ?_, ?_⟩
    · intro fits
      rw [step_of_makes h]
      exact if_pos fits
    · intro fits short
      have full : m.capacity ≤ below.length := Nat.le_of_lt_succ short
      have whole : below = m.stack.values :=
        h.suffix.eq_of_length_le (Nat.le_trans fits full)
      rw [step_of_makes h, if_neg (Nat.not_lt.2 full), whole]
      rfl
  · refine .inr ⟨(m.withCapacity (m.depth + 1)).holding below, trap, ?_, ?_, ?_⟩
    · have refuses : op.Refuses op.wants (m.withCapacity (m.depth + 1)).stack.values below trap := h
      exact step_of_refuses refuses
    · exact h.trap_ne_overflow
    · exact step_of_refuses h

theorem stepsUnbounded_cons_of_ok (h : m.stepUnbounded op = .ok n) :
    m.stepsUnbounded (op :: rest) = n.stepsUnbounded rest := by
  rw [stepsUnbounded, Attempt.runAll_cons, h]
  rfl

theorem stepsUnbounded_cons_of_fail {trap : Trap} (h : m.stepUnbounded op = .fail n trap) :
    m.stepsUnbounded (op :: rest) = .fail n trap := by
  rw [stepsUnbounded, Attempt.runAll_cons, h]
  rfl

theorem stepsUnbounded_not_overflow (m : Machine) (ops : List Opcode) (other : Opcode) (c : Nat) :
    (m.stepsUnbounded ops).fault ≠ some (.overflow other c) := by
  induction ops generalizing m with
  | nil => nofun
  | cons op rest ih =>
      rcases m.step_lockstep op with ⟨n, step, -⟩ | ⟨n, trap, step, noOverflow, -⟩
      · rw [stepsUnbounded_cons_of_ok step]
        exact ih n
      · rw [stepsUnbounded_cons_of_fail step]
        exact fun same => noOverflow other c (Option.some.inj same)

/-- With room for the peak, a run takes its natural course. -/
theorem steps_eq_of_peak_le {ops : List Opcode} (room : m.peak ops ≤ m.capacity) :
    m.steps ops = (m.stepsUnbounded ops).map (withCapacity m.capacity) := by
  induction ops generalizing m with
  | nil => rfl
  | cons op rest ih =>
      rw [steps_cons]
      rcases m.step_lockstep op with ⟨n, step, -, fits, -⟩ | ⟨n, trap, step, -, same⟩
      · rw [peak_cons_of_ok step] at room
        have later : (n.withCapacity m.capacity).peak rest ≤ m.capacity := by
          rw [peak_withCapacity]
          exact Nat.le_trans (Nat.le_max_right _ _) room
        have depth : n.depth ≤ m.capacity :=
          Nat.le_trans (n.depth_le_peak rest) (peak_withCapacity m.capacity n rest ▸ later)
        rw [fits depth, Attempt.andThen_ok, ih later, stepsUnbounded_cons_of_ok step]
        exact stepsUnbounded_withCapacity _ _ _ _
      · rw [same, Attempt.andThen_fail, stepsUnbounded_cons_of_fail step]
        rfl

/-- The place of an overflow: the run comes as far as `before` with the stack full at the
end, and there the unbounded run goes on to a depth that it has not had so far. -/
structure OverflowsAt (m : Machine) (ops before : List Opcode) (op : Opcode) : Prop where
  reached : before ++ [op] <+: ops
  within : m.peak before ≤ m.capacity
  beyond : (m.stepsUnbounded (before ++ [op])).fault = none
  rises : (m.stepsUnbounded (before ++ [op])).state.depth = m.capacity + 1
  runs : (m.steps before).fault = none
  overflows : m.steps ops = .fail (m.steps before).state (.overflow op m.capacity)

/-- A step that fits can be put in front. -/
theorem OverflowsAt.cons {before : List Opcode} {other : Opcode}
    (h : (n.withCapacity m.capacity).OverflowsAt rest before other)
    (free : m.stepUnbounded op = .ok n) (fits : m.depth ≤ m.capacity)
    (step : m.step op = .ok (n.withCapacity m.capacity)) :
    m.OverflowsAt (op :: rest) (op :: before) other where
  reached := (List.prefix_cons_inj op).2 h.reached
  within := by
    rw [peak_cons_of_ok free, ← peak_withCapacity m.capacity n]
    exact Nat.max_le.2 ⟨fits, h.within⟩
  beyond := by
    rw [List.cons_append, stepsUnbounded_cons_of_ok free, ← fault_stepsUnbounded m.capacity]
    exact h.beyond
  rises := by
    rw [List.cons_append, stepsUnbounded_cons_of_ok free, ← depth_stepsUnbounded m.capacity]
    exact h.rises
  runs := by
    rw [steps_cons, step]
    exact h.runs
  overflows := by
    rw [steps_cons, steps_cons, step]
    exact h.overflows

theorem exists_overflowsAt {ops : List Opcode} (fits : m.depth ≤ m.capacity)
    (short : m.capacity < m.peak ops) : ∃ before op, m.OverflowsAt ops before op := by
  induction ops generalizing m with
  | nil => exact absurd fits (Nat.not_le.2 short)
  | cons op rest ih =>
      rcases m.step_lockstep op with ⟨n, step, rise, ok, overflow⟩ | ⟨n, trap, step, -⟩
      · rw [peak_cons_of_ok step] at short
        by_cases depth : n.depth ≤ m.capacity
        · have later : (n.withCapacity m.capacity).capacity <
              (n.withCapacity m.capacity).peak rest := by
            rw [peak_withCapacity]
            exact Nat.lt_of_not_le fun low => Nat.not_le.2 short (Nat.max_le.2 ⟨fits, low⟩)
          obtain ⟨before, other, h⟩ := ih (m := n.withCapacity m.capacity) depth later
          exact ⟨op :: before, other, h.cons step fits (ok depth)⟩
        · -- No step adds more than one value, so this depth is the first beyond the capacity.
          have deeper : m.capacity < n.depth := Nat.lt_of_not_le depth
          refine ⟨[], op, ⟨rest, rfl⟩, fits, ?_, ?_, rfl, ?_⟩
          · rw [List.nil_append, stepsUnbounded_cons_of_ok step]
            rfl
          · rw [List.nil_append, stepsUnbounded_cons_of_ok step]
            exact Nat.le_antisymm (Nat.le_trans rise (Nat.succ_le_succ fits)) deeper
          · rw [steps_cons, overflow fits deeper]
            rfl
      · rw [peak_cons_of_fail step] at short
        exact absurd fits (Nat.not_le.2 short)

end Machine
end StackText
