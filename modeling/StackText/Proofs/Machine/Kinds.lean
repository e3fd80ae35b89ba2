import StackText.Proofs.Machine.Run

/-!
# Control never depends on payloads

Forget the payloads and a machine becomes a `Sketch`: a bounded stack of kinds. Sketches
have steps of their own, which read nothing but the table of operands, `Opcode.wants`,
and the kind that an opcode makes. They foretell the steps of every machine that they
are a sketch of (`Machine.sketch_step`), and so whole runs, failures included. Hence two
machines of the same sketch cannot be told apart by what they answer.
-/
namespace StackText

/-- The kind of what an opcode makes, whatever its operands; `none` for a copy. -/
def Opcode.makesKind? : Opcode → Option Kind
  | .intNew | .intInc | .intShl | .intAdd | .intNeg | .intShr => some .int
  | .intToUint => some .uint
  | .intToFloat | .floatInf | .floatNan | .floatNeg => some .float
  | .strNew | .strAdd => some .str
  | .boolNew | .boolNeg => some .bool
  | .nilNew => some .nil
  | .objNew | .objAdd => some .object
  | .arrNew | .arrAdd => some .array
  | .dup => none

namespace Opcode

theorem eq_dup_of_makesKind?_eq_none {op : Opcode} (h : op.makesKind? = none) : op = .dup := by
  cases op <;> first | rfl | cases h

theorem Makes.of_dup {s rest : List Value} {v : Value} (h : Makes .dup s v rest) :
    s.head? = some v ∧ rest = s := by
  cases h
  exact ⟨rfl, rfl⟩

theorem Refuses.of_dup {s rest : List Value} {trap : Trap}
    (h : Refuses .dup (wants .dup) s rest trap) : s = [] ∧ rest = [] ∧ trap = .underflow .dup := by
  cases h with
  | missing => exact ⟨rfl, rfl, rfl⟩
  | later _ h => cases h

end Opcode

abbrev Sketch := Stack Kind

namespace Sketch

def push (s : Sketch) (op : Opcode) (kind : Kind) : Attempt Trap Sketch :=
  match s.push? kind with
  | some t => .ok t
  | none => .fail s (.overflow op s.capacity)

/-- Takes operands off one after another, each checked as it comes. -/
def takeOperands (op : Opcode) : List (Option Kind) → List Kind → Attempt Trap (List Kind)
  | [], kinds => .ok kinds
  | _ :: _, [] => .fail [] (.underflow op)
  | none :: wants, _ :: kinds => takeOperands op wants kinds
  | some expected :: wants, actual :: kinds =>
      if actual = expected then takeOperands op wants kinds
      else .fail kinds (.mismatch op expected actual)

def step (s : Sketch) (op : Opcode) : Attempt Trap Sketch :=
  match op.makesKind? with
  | some kind =>
      ((takeOperands op op.wants s.values).map fun values => { s with values }).andThen
        fun s => s.push op kind
  | none =>
      match s.top? with
      | some kind => s.push op kind
      | none => .fail s (.underflow op)

theorem push_eq (s : Sketch) (op : Opcode) (kind : Kind) :
    s.push op kind =
      if s.depth < s.capacity then .ok { s with values := kind :: s.values }
      else .fail s (.overflow op s.capacity) := by
  unfold push Stack.push?
  by_cases room : s.depth < s.capacity
  · rw [if_pos room, if_pos room]
  · rw [if_neg room, if_neg room]

/-- Values that an opcode makes something of pass as operands. -/
theorem takeOperands_of_makes {op : Opcode} {s rest : List Value} {v : Value}
    (h : op.Makes s v rest) {kind : Kind} (made : op.makesKind? = some kind) :
    takeOperands op op.wants (s.map Value.kind) = .ok (rest.map Value.kind) ∧ v.kind = kind := by
  cases h <;> cases made <;> exact ⟨rfl, rfl⟩

theorem takeOperands_of_refuses {op : Opcode} {wants : List (Option Kind)} {s rest : List Value}
    {trap : Trap} (h : op.Refuses wants s rest trap) :
    takeOperands op wants (s.map Value.kind) = .fail (rest.map Value.kind) trap := by
  induction h with
  | missing => rfl
  | wrong unsuited => exact if_neg unsuited
  | @later want _ _ _ _ _ suits _ ih =>
      cases want with
      | none => exact ih
      | some kind =>
          rw [List.map_cons, takeOperands, if_pos (suits kind rfl)]
          exact ih

end Sketch

namespace Machine

/-- What is left of a machine if the payloads are forgotten. -/
def sketch (m : Machine) : Sketch := ⟨m.capacity, m.stack.values.map Value.kind⟩

theorem values_sketch (m : Machine) : m.sketch.values = m.stack.values.map Value.kind := rfl

theorem top?_sketch (m : Machine) : m.sketch.top? = m.top?.map Value.kind :=
  List.head?_map

theorem sketch_push_of_makes {m : Machine} {op : Opcode} {v : Value} {rest : List Value}
    (h : op.Makes m.stack.values v rest) :
    (m.holding rest).sketch.push op v.kind = (m.step op).map sketch := by
  rw [step_of_makes h, Sketch.push_eq]
  have depth : (m.holding rest).sketch.depth = rest.length := List.length_map _
  rw [depth]
  by_cases room : rest.length < m.capacity
  · rw [if_pos room]
    exact if_pos room
  · rw [if_neg room]
    exact if_neg room

theorem sketch_step_of_makes {m : Machine} {op : Opcode} {v : Value} {rest : List Value}
    (h : op.Makes m.stack.values v rest) : m.sketch.step op = (m.step op).map sketch := by
  rw [← sketch_push_of_makes h]
  unfold Sketch.step
  cases made : op.makesKind? with
  | some kind =>
      obtain ⟨taken, rfl⟩ := Sketch.takeOperands_of_makes h made
      simp only [values_sketch, taken]
      rfl
  | none =>
      obtain rfl := Opcode.eq_dup_of_makesKind?_eq_none made
      obtain ⟨onTop, below⟩ := h.of_dup
      have top : m.sketch.top? = some v.kind := by
        rw [top?_sketch, top?, Stack.top?, onTop]
        rfl
      simp only [top]
      rw [below]
      rfl

theorem sketch_step_of_refuses {m : Machine} {op : Opcode} {rest : List Value} {trap : Trap}
    (h : op.Refuses op.wants m.stack.values rest trap) :
    m.sketch.step op = (m.step op).map sketch := by
  rw [step_of_refuses h]
  unfold Sketch.step
  cases made : op.makesKind? with
  | some kind =>
      have taken := Sketch.takeOperands_of_refuses h
      simp only [values_sketch, taken]
      rfl
  | none =>
      obtain rfl := Opcode.eq_dup_of_makesKind?_eq_none made
      obtain ⟨empty, rfl, rfl⟩ := h.of_dup
      have top : m.sketch.top? = none := by
        rw [top?_sketch, top?, Stack.top?, empty]
        rfl
      simp only [top]
      exact congrArg (Attempt.fail · _) (congrArg (Stack.mk m.capacity) (congrArg _ empty))

/-- A step of the sketch is the sketch of the step. -/
theorem sketch_step (m : Machine) (op : Opcode) : m.sketch.step op = (m.step op).map sketch := by
  rcases op.makes_or_refuses m.stack.values with ⟨v, rest, h⟩ | ⟨rest, trap, h⟩
  · exact sketch_step_of_makes h
  · exact sketch_step_of_refuses h

/-- Two machines with room for as many values and with values of the same kinds answer
alike, opcode by opcode, whether or not failures stop them, and are left with values of
the same kinds. Their sketch alone foretells each answer, how far a run gets that stops
at the first failure, and the kind of what it leaves on top. -/
theorem runEach_sketch_eq {m n : Machine} (capacity : m.capacity = n.capacity)
    (kinds : m.stack.values.map Value.kind = n.stack.values.map Value.kind)
    (ops : List Opcode) :
    (Attempt.runEach step m ops).1.map (Attempt.map sketch) =
        (Attempt.runEach step n ops).1.map (Attempt.map sketch) ∧
      (Attempt.runEach step m ops).1.map (Attempt.map sketch) =
        (Attempt.runEach Sketch.step m.sketch ops).1 ∧
      (m.steps ops).map sketch = Attempt.runAll Sketch.step m.sketch ops ∧
      (m.steps ops).state.executed =
        m.executed + ((Attempt.runEach Sketch.step m.sketch ops).1.takeWhile
          fun a => a.fault.isNone).length ∧
      (m.steps ops).state.top?.map Value.kind =
        (Attempt.runAll Sketch.step m.sketch ops).state.top? := by
  have same : m.sketch = n.sketch := by rw [sketch, sketch, capacity, kinds]
  have foretold (m : Machine) := Attempt.runEach_map sketch_step m ops
  have stopped := Attempt.runAll_map sketch_step m ops
  refine ⟨?_, ?_, ?_, ?_, ?_⟩
  · rw [← foretold, ← foretold, same]
  · rw [foretold]
  · exact stopped.symm
  · rw [executed_steps, foretold, List.takeWhile_map, List.length_map]
    rfl
  · rw [stopped]
    exact (top?_sketch _).symm

/-- Two strings take different bytes; then both refuse to be negated, and are gone. -/
theorem runEach_sketch_eq_strings :
    let m : Machine := ⟨⟨2, [.int 5, .str [1]]⟩, 0⟩
    let n : Machine := ⟨⟨2, [.int (-1), .str []]⟩, 7⟩
    m.capacity = n.capacity ∧
      m.stack.values.map Value.kind = n.stack.values.map Value.kind ∧
      (Attempt.runEach step m [.strAdd, .intNeg, .dup]).1.map (Attempt.map sketch) =
        [.ok ⟨2, [.str]⟩, .fail ⟨2, []⟩ (.mismatch .intNeg .int .str),
          .fail ⟨2, []⟩ (.underflow .dup)] ∧
      (Attempt.runEach step n [.strAdd, .intNeg, .dup]).1.map (Attempt.map sketch) =
        (Attempt.runEach step m [.strAdd, .intNeg, .dup]).1.map (Attempt.map sketch) ∧
      (n.steps [.strAdd, .intNeg, .dup]).state.executed = 8 := by
  intro m n
  obtain ⟨same, foretold, -, -, -⟩ :=
    runEach_sketch_eq (m := m) (n := n) rfl rfl [.strAdd, .intNeg, .dup]
  obtain ⟨-, -, -, executed, -⟩ :=
    runEach_sketch_eq (m := n) (n := m) rfl rfl [.strAdd, .intNeg, .dup]
  exact ⟨rfl, rfl, foretold, same.symm, executed⟩

end Machine
end StackText
