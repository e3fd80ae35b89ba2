import StackText.Proofs.Machine.Run

/-!
# The contract of an opcode

What a caller has to know about one opcode on one machine. Operands are counted from
the top of the stack, and the first that is missing or of the wrong kind decides how
the opcode fails and what it leaves. If all of them are there, only an opcode that takes
nothing off can still fail, for want of room. Every machine whose stack fits its capacity
keeps the contract, and so does every machine that a run leaves behind, whatever failed
on the way (`contract_after`).
-/
namespace StackText

namespace Opcode
variable {op : Opcode} {wants : List (Option Kind)} {s rest : List Value}

/-- The value at a place, counted from the top, is there and of the kind asked for. -/
def FitsAt (wants : List (Option Kind)) (s : List Value) (j : Nat) : Prop :=
  ∃ v, s[j]? = some v ∧ ∀ kind, wants[j]? = some (some kind) → v.kind = kind

theorem refuses_of_missing (fits : ∀ i < s.length, FitsAt wants s i)
    (short : s.length < wants.length) : op.Refuses wants s [] (.underflow op) := by
  induction wants generalizing s with
  | nil => cases short
  | cons want wants ih =>
      cases s with
      | nil => exact .missing
      | cons v s =>
          obtain ⟨w, there, suits⟩ := fits 0 (Nat.zero_lt_succ _)
          obtain rfl : v = w := Option.some.inj there
          have later : ∀ i < s.length, FitsAt wants s i :=
            fun i hi => fits (i + 1) (Nat.succ_lt_succ hi)
          refine .later ?_ (ih later (Nat.lt_of_succ_lt_succ short))
          rintro kind rfl
          exact suits kind rfl

theorem refuses_of_wrong {j : Nat} {kind : Kind} {v : Value} (fits : ∀ i < j, FitsAt wants s i)
    (asked : wants[j]? = some (some kind)) (there : s[j]? = some v) (wrong : v.kind ≠ kind) :
    op.Refuses wants s (s.drop (j + 1)) (.mismatch op kind v.kind) := by
  induction j generalizing wants s with
  | zero =>
      obtain ⟨wants, rfl⟩ := List.head?_eq_some_iff.1 (List.head?_eq_getElem? ▸ asked)
      obtain ⟨s, rfl⟩ := List.head?_eq_some_iff.1 (List.head?_eq_getElem? ▸ there)
      exact .wrong wrong
  | succ j ih =>
      obtain ⟨w, first, suits⟩ := fits 0 (Nat.zero_lt_succ j)
      obtain ⟨s, rfl⟩ := List.head?_eq_some_iff.1 (List.head?_eq_getElem? ▸ first)
      cases wants with
      | nil => cases asked
      | cons want wants =>
          have later : ∀ i < j, FitsAt wants s i :=
            fun i hi => fits (i + 1) (Nat.succ_lt_succ hi)
          refine .later ?_ (ih later asked there)
          rintro kind rfl
          exact suits kind rfl

/-- If an operand stops an opcode, the one that does so does not fit. -/
theorem Refuses.exists_not_fitsAt {trap : Trap} (h : op.Refuses wants s rest trap) :
    ∃ j < wants.length, ¬ FitsAt wants s j := by
  induction h with
  | missing =>
      refine ⟨0, Nat.zero_lt_succ _, ?_⟩
      rintro ⟨v, there, -⟩
      cases there
  | wrong unsuited =>
      refine ⟨0, Nat.zero_lt_succ _, ?_⟩
      rintro ⟨v, there, suits⟩
      obtain rfl := Option.some.inj there
      exact unsuited (suits _ rfl)
  | later _ _ ih =>
      obtain ⟨j, bound, unfit⟩ := ih
      exact ⟨j + 1, Nat.succ_lt_succ bound, unfit⟩

/-- What an opcode leaves in place is what lies below as many values as its arity says. -/
theorem Makes.rest_eq_drop {v : Value} (h : op.Makes s v rest) : rest = s.drop op.arity := by
  cases h <;> rfl

theorem Makes.length_rest {v : Value} (h : op.Makes s v rest) :
    rest.length + op.arity = s.length := by
  cases h <;> rfl

theorem makes_of_fits (fits : ∀ j < op.wants.length, FitsAt op.wants s j) :
    ∃ v, op.Makes s v (s.drop op.arity) := by
  rcases op.makes_or_refuses s with ⟨v, rest, makes⟩ | ⟨rest, trap, refuses⟩
  · obtain rfl := makes.rest_eq_drop
    exact ⟨v, makes⟩
  · obtain ⟨j, bound, unfit⟩ := refuses.exists_not_fitsAt
    exact absurd (fits j bound) unfit

/-- The four ways an opcode can end, by the first operand that does not fit. -/
structure Contract (op : Opcode) (m : Machine) : Prop where
  missing : ∀ j < op.wants.length, (∀ i < j, FitsAt op.wants m.stack.values i) →
    m.stack.values[j]? = none → m.step op = .fail (m.holding []) (.underflow op)
  wrong : ∀ j < op.wants.length, (∀ i < j, FitsAt op.wants m.stack.values i) →
    ∀ kind v, op.wants[j]? = some (some kind) → m.stack.values[j]? = some v → v.kind ≠ kind →
      m.step op =
        .fail (m.holding (m.stack.values.drop (j + 1))) (.mismatch op kind v.kind)
  full : (∀ j < op.wants.length, FitsAt op.wants m.stack.values j) →
    op.arity = 0 → m.depth = m.capacity → m.step op = .fail m (.overflow op m.capacity)
  succeeds : (∀ j < op.wants.length, FitsAt op.wants m.stack.values j) →
    0 < op.arity ∨ m.depth < m.capacity →
      ∃ v, op.Makes m.stack.values v (m.stack.values.drop op.arity) ∧
        m.step op = .ok (m.advanced (v :: m.stack.values.drop op.arity))

end Opcode

namespace Machine

theorem contract {m : Machine} (h : m.depth ≤ m.capacity) (op : Opcode) : op.Contract m where
  missing j bound fits absent := by
    have short : m.stack.values.length ≤ j := List.getElem?_eq_none_iff.1 absent
    have all : ∀ i < m.stack.values.length, Opcode.FitsAt op.wants m.stack.values i :=
      fun i hi => fits i (Nat.lt_of_lt_of_le hi short)
    exact step_of_refuses (Opcode.refuses_of_missing all (Nat.lt_of_le_of_lt short bound))
  wrong j _ fits kind v asked there unsuited :=
    step_of_refuses (Opcode.refuses_of_wrong fits asked there unsuited)
  full fits arity full := by
    obtain ⟨v, makes⟩ := Opcode.makes_of_fits fits
    rw [arity, List.drop_zero] at makes
    have noRoom : ¬ m.stack.values.length < m.capacity := Nat.not_lt.2 (Nat.le_of_eq full.symm)
    rw [step_of_makes makes, if_neg noRoom]
    rfl
  succeeds fits room := by
    obtain ⟨v, makes⟩ := Opcode.makes_of_fits fits
    have taken := makes.length_rest
    -- Operands make room for the result, even on a full stack.
    have fits : m.stack.values.length ≤ m.capacity := h
    have atMost : m.stack.values.length < m.capacity ∨ 0 < op.arity := room.symm
    have below : (m.stack.values.drop op.arity).length < m.capacity := by omega
    refine ⟨v, makes, ?_⟩
    rw [step_of_makes makes, if_pos below]

theorem not_overflow_of_arity_pos {m : Machine} {op : Opcode} (h : m.depth ≤ m.capacity)
    (takes : 0 < op.arity) (other : Opcode) (capacity : Nat) :
    (m.step op).fault ≠ some (.overflow other capacity) := by
  have fits : m.stack.values.length ≤ m.capacity := h
  rcases m.step_cases op with
    ⟨v, rest, _, _, step⟩ | ⟨v, rest, makes, full, step⟩ | ⟨rest, trap, refuses, step⟩
  · rw [step]
    nofun
  · have taken := makes.length_rest
    omega
  · rw [step]
    exact fun same => refuses.trap_ne_overflow other capacity (Option.some.inj same)

/-- Whatever has been fed and whatever failed, the next opcode keeps its contract: the
stack has not outgrown its capacity, so an opcode that takes operands cannot overflow it. -/
theorem contract_after {m : Machine} (h : m.depth ≤ m.capacity) (ops : List Opcode) :
    (m.after ops).capacity = m.capacity ∧ (m.after ops).depth ≤ m.capacity ∧
      (m.after ops).executed =
        m.executed + ((Attempt.runEach step m ops).1.countP fun a => a.fault.isNone) ∧
      ∀ op : Opcode, op.Contract (m.after ops) ∧
        (0 < op.arity → ∀ other capacity,
          ((m.after ops).step op).fault ≠ some (.overflow other capacity)) := by
  have fits : (m.after ops).depth ≤ (m.after ops).capacity := by
    rw [capacity_after]
    exact depth_after_le h ops
  refine ⟨capacity_after m ops, depth_after_le h ops, executed_after m ops, ?_⟩
  intro op
  exact ⟨contract fits op, not_overflow_of_arity_pos fits⟩

/-- A full stack refuses a new integer and stays as it is. Then `nil` is no key: it is off
the stack with the value above it, and the object below is left. -/
theorem contract_after_full :
    let m : Machine := ⟨⟨3, [.bool true, .nil, .object []]⟩, 0⟩
    m.depth ≤ m.capacity ∧ (m.after [.intNew]).depth ≤ 3 ∧
      m.step .intNew = .fail m (.overflow .intNew 3) ∧
      (m.after [.intNew]).step .objAdd =
        .fail ((m.after [.intNew]).holding [.object []]) (.mismatch .objAdd .str .nil) := by
  intro m
  have fits : m.depth ≤ m.capacity := by decide
  obtain ⟨-, -, -, now⟩ := contract_after fits []
  obtain ⟨-, bound, -, later⟩ := contract_after fits [.intNew]
  have value : ∀ i < 1,
      Opcode.FitsAt (Opcode.wants .objAdd) (m.after [.intNew]).stack.values i := by
    intro i hi
    obtain rfl := Nat.lt_one_iff.1 hi
    exact ⟨.bool true, rfl, nofun⟩
  exact ⟨fits, bound, (now .intNew).1.full nofun rfl rfl,
    (later .objAdd).1.wrong 1 (by decide) value .str .nil rfl rfl nofun⟩

end Machine
end StackText
