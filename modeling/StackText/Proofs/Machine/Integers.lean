import Mathlib.Algebra.Order.Ring.Int
import StackText.Proofs.Machine.Run

/-!
# Integers modulo 2 ^ 64

A machine whose stack holds integers alone, and whose program has no opcode for anything
else, calculates modulo 2 ^ 64. An `IntMachine` is the same machine on integers without
bounds. Reducing its stack to 64-bit words gives a machine (`IntMachine.wrapped`), and
each opcode respects the reduction (`IntMachine.step_wrapped`), so whole runs do. Words
may wrap around at any step: no test of the machine ever looks at them.
-/
namespace StackText

namespace Attempt
variable {ε σ α β : Type}

/-- Requests can be rephrased one by one as they are carried out. -/
theorem runAll_requests (step : σ → α → Attempt ε σ) (phrase : β → α) (s : σ) (requests : List β) :
    runAll step s (requests.map phrase) = runAll (fun s b => step s (phrase b)) s requests := by
  induction requests generalizing s with
  | nil => rfl
  | cons b rest ih => simp only [List.map_cons, runAll_cons, ih]

theorem runEach_requests (step : σ → α → Attempt ε σ) (phrase : β → α) (s : σ)
    (requests : List β) :
    runEach step s (requests.map phrase) = runEach (fun s b => step s (phrase b)) s requests := by
  induction requests generalizing s with
  | nil => rfl
  | cons b rest ih => simp only [List.map_cons, runEach, ih]

end Attempt

/-- The opcodes that take and make nothing but integers if the stack holds nothing else. -/
inductive IntOpcode where
  | new | inc | shl | add | neg | dup
  deriving DecidableEq, Repr

def IntOpcode.opcode : IntOpcode → Opcode
  | .new => .intNew
  | .inc => .intInc
  | .shl => .intShl
  | .add => .intAdd
  | .neg => .intNeg
  | .dup => .dup

def Machine.stepInt (m : Machine) (op : IntOpcode) : Attempt Trap Machine := m.step op.opcode

/-- A machine that holds integers of any size. -/
structure IntMachine where
  stack : Stack Int
  /-- How many opcodes have been executed successfully. -/
  executed : Nat := 0
  deriving DecidableEq, Repr

namespace IntMachine

def push (r : IntMachine) (op : IntOpcode) (n : Int) : Attempt Trap IntMachine :=
  match r.stack.push? n with
  | some stack => .ok { r with stack }
  | none => .fail r (.overflow op.opcode r.stack.capacity)

/-- Takes an integer off the stack and goes on with it. -/
def withOperand (r : IntMachine) (op : IntOpcode)
    (next : IntMachine → Int → Attempt Trap IntMachine) : Attempt Trap IntMachine :=
  match r.stack.pop? with
  | some (n, stack) => next { r with stack } n
  | none => .fail r (.underflow op.opcode)

def effect (r : IntMachine) (op : IntOpcode) : Attempt Trap IntMachine :=
  match op with
  | .new => r.push op 0
  | .inc => r.withOperand op fun r n => r.push op (n + 1)
  | .shl => r.withOperand op fun r n => r.push op (n * 2)
  | .add => r.withOperand op fun r b => r.withOperand op fun r a => r.push op (a + b)
  | .neg => r.withOperand op fun r n => r.push op (-n)
  | .dup =>
      match r.stack.top? with
      | some n => r.push op n
      | none => .fail r (.underflow op.opcode)

/-- Executes one opcode, and counts it if it succeeds. -/
def step (r : IntMachine) (op : IntOpcode) : Attempt Trap IntMachine :=
  (r.effect op).andThen fun r => .ok { r with executed := r.executed + 1 }

/-- Executes opcodes until one fails. -/
def steps (r : IntMachine) (ops : List IntOpcode) : Attempt Trap IntMachine :=
  Attempt.runAll step r ops

/-- The integer of 64 bits that agrees with an integer modulo 2 ^ 64. -/
def word (n : Int) : Value := .int (.ofInt n)

/-- The machine with the integers reduced to 64 bits. -/
def wrapped (r : IntMachine) : Machine :=
  ⟨⟨r.stack.capacity, r.stack.values.map word⟩, r.executed⟩

/-- The integers on the stack of a machine, on the stack of a machine without bounds. -/
def ofMachine (m : Machine) : IntMachine :=
  ⟨⟨m.capacity, (m.stack.values.filterMap Value.asInt?).map Int64.toInt⟩, m.executed⟩

theorem wrapped_ofMachine {m : Machine} (ints : ∀ v ∈ m.stack.values, v.kind = .int) :
    (ofMachine m).wrapped = m := by
  have same : ((m.stack.values.filterMap Value.asInt?).map Int64.toInt).map word =
      m.stack.values := by
    generalize m.stack.values = values at ints
    induction values with
    | nil => rfl
    | cons v rest ih =>
        obtain ⟨first, later⟩ := List.forall_mem_cons.1 ints
        obtain ⟨n, rfl⟩ := Value.shape_of_kind first
        have payload : (Value.int n).asInt? = some n := rfl
        rw [List.filterMap_cons_some payload, List.map_cons, List.map_cons, ih later, word,
          Int64.ofInt_toInt]
  rw [wrapped, ofMachine, same]
  rfl

theorem push_wrapped (r : IntMachine) (op : IntOpcode) (n : Int) :
    r.wrapped.push op.opcode (word n) = (r.push op n).map wrapped := by
  rw [Machine.push_eq, push, Stack.push?]
  have depth : r.wrapped.depth = r.stack.depth := List.length_map _
  rw [depth]
  by_cases room : r.stack.depth < r.stack.capacity
  · rw [if_pos room]
    exact if_pos room
  · rw [if_neg room]
    exact if_neg room

/-- Taking an operand off respects the reduction if what follows does. -/
theorem withOperand_wrapped (r : IntMachine) (op : IntOpcode)
    {onInts : IntMachine → Int → Attempt Trap IntMachine}
    {onWords : Machine → Int64 → Attempt Trap Machine}
    (respects : ∀ r n, onWords (wrapped r) (.ofInt n) = (onInts r n).map wrapped) :
    r.wrapped.withInt op.opcode onWords = (r.withOperand op onInts).map wrapped := by
  obtain ⟨⟨capacity, _ | ⟨n, rest⟩⟩, executed⟩ := r
  · rfl
  · exact respects ⟨⟨capacity, rest⟩, executed⟩ n

theorem effect_wrapped (r : IntMachine) (op : IntOpcode) :
    r.wrapped.effect op.opcode = (r.effect op).map wrapped := by
  cases op with
  | new => exact r.push_wrapped .new 0
  | inc =>
      refine r.withOperand_wrapped .inc fun r n => ?_
      rw [← push_wrapped, word, Int64.ofInt_add]
      rfl
  | shl =>
      refine r.withOperand_wrapped .shl fun r n => ?_
      have twice : n * 2 = n + n := by omega
      rw [← push_wrapped, word, twice, Int64.ofInt_add]
  | add =>
      refine r.withOperand_wrapped .add fun r b => r.withOperand_wrapped .add fun r a => ?_
      rw [← push_wrapped, word, Int64.ofInt_add]
  | neg =>
      refine r.withOperand_wrapped .neg fun r n => ?_
      rw [← push_wrapped, word, Int64.ofInt_neg]
  | dup =>
      obtain ⟨⟨capacity, _ | ⟨n, rest⟩⟩, executed⟩ := r
      · rfl
      · exact push_wrapped ⟨⟨capacity, n :: rest⟩, executed⟩ .dup n

theorem step_wrapped (r : IntMachine) (op : IntOpcode) :
    r.wrapped.stepInt op = (r.step op).map wrapped := by
  rw [Machine.stepInt, Machine.step, effect_wrapped, step]
  refine Attempt.map_andThen (fun r => ?_) _
  rfl

/-- Reduced to 64 bits, an integer keeps its residue and comes to lie between the least and
the greatest of those words. -/
theorem exists_word_eq (n : Int) : ∃ w : Int64, word n = .int w ∧ w.toInt = n.bmod (2 ^ 64) :=
  ⟨.ofInt n, rfl, Int64.toInt_ofInt⟩

end IntMachine

namespace Machine

/-- On integers alone, a machine keeps step with the machine without bounds that starts from
the same integers. They answer each opcode alike, whether or not failures stop them, and
after each the words on the one stack are the integers on the other modulo 2 ^ 64. -/
theorem steps_modulo {m : Machine} (ints : ∀ v ∈ m.stack.values, v.kind = .int)
    (ops : List IntOpcode) :
    m.steps (ops.map IntOpcode.opcode) =
        ((IntMachine.ofMachine m).steps ops).map IntMachine.wrapped ∧
      (Attempt.runEach step m (ops.map IntOpcode.opcode)).1 =
        (Attempt.runEach IntMachine.step (IntMachine.ofMachine m) ops).1.map
          (Attempt.map IntMachine.wrapped) ∧
      ∀ n, ∃ w : Int64, IntMachine.word n = .int w ∧ w.toInt = n.bmod (2 ^ 64) := by
  have start := IntMachine.wrapped_ofMachine ints
  refine ⟨?_, ?_, IntMachine.exists_word_eq⟩
  · have run := Attempt.runAll_map IntMachine.step_wrapped (IntMachine.ofMachine m) ops
    rw [start] at run
    exact (Attempt.runAll_requests step IntOpcode.opcode m ops).trans run
  · have trace := Attempt.runEach_map IntMachine.step_wrapped (IntMachine.ofMachine m) ops
    rw [start] at trace
    rw [Attempt.runEach_requests]
    exact trace

/-- The greatest integer wraps around to the least, whose double is zero; without bounds it
goes on to 2 ^ 64. Then the copy finds no room in either. -/
theorem steps_modulo_greatest :
    let m : Machine := ⟨⟨1, [.int Int64.maxValue]⟩, 0⟩
    (∀ v ∈ m.stack.values, v.kind = .int) ∧
      m.steps [.intInc, .intShl, .dup] =
        ((IntMachine.ofMachine m).steps [.inc, .shl, .dup]).map IntMachine.wrapped ∧
      (IntMachine.ofMachine m).steps [.inc, .shl, .dup] =
        .fail ⟨⟨1, [2 ^ 64]⟩, 2⟩ (.overflow .dup 1) := by
  intro m
  have ints : ∀ v ∈ m.stack.values, v.kind = .int := by simp [m, Value.kind]
  exact ⟨ints, (steps_modulo ints [.inc, .shl, .dup]).1, by decide⟩

end Machine
end StackText
