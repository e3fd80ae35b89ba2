import StackText.Machine.Basic

/-!
# What one opcode can do

Whether an opcode succeeds depends on the top of the stack and on the room above it,
never on what has been executed before. `Opcode.Makes` says what an opcode makes of
suitable operands and `Opcode.Refuses` how an operand stops it; for every stack one
of the two holds (`Opcode.makes_or_refuses`). `Machine.step_cases` reads off from
them all that one step of a machine can do. What is shown of runs starts from there.
-/
namespace StackText

namespace Value

/-- The values of a kind are those that its constructor gives. -/
theorem shape_of_kind {v : Value} {kind : Kind} (h : v.kind = kind) :
    match kind with
    | .int => ∃ n, v = .int n
    | .uint => ∃ n, v = .uint n
    | .float => ∃ x, v = .float x
    | .str => ∃ bytes, v = .str bytes
    | .bool => ∃ b, v = .bool b
    | .nil => v = .nil
    | .object => ∃ entries, v = .object entries
    | .array => ∃ items, v = .array items := by
  subst h
  cases v <;> simp [kind]

theorem asInt?_eq_none_iff (v : Value) : v.asInt? = none ↔ v.kind ≠ .int := by
  cases v <;> simp [asInt?, kind]

theorem asFloat?_eq_none_iff (v : Value) : v.asFloat? = none ↔ v.kind ≠ .float := by
  cases v <;> simp [asFloat?, kind]

theorem asStr?_eq_none_iff (v : Value) : v.asStr? = none ↔ v.kind ≠ .str := by
  cases v <;> simp [asStr?, kind]

theorem asBool?_eq_none_iff (v : Value) : v.asBool? = none ↔ v.kind ≠ .bool := by
  cases v <;> simp [asBool?, kind]

theorem asObject?_eq_none_iff (v : Value) : v.asObject? = none ↔ v.kind ≠ .object := by
  cases v <;> simp [asObject?, kind]

theorem asArray?_eq_none_iff (v : Value) : v.asArray? = none ↔ v.kind ≠ .array := by
  cases v <;> simp [asArray?, kind]

end Value

namespace Opcode

/-- What an opcode makes of the values on top of a stack, the topmost first, and the
stack that the result is put on. -/
inductive Makes : Opcode → List Value → Value → List Value → Prop
  | intNew {s : List Value} : Makes .intNew s (.int 0) s
  | intInc {n : Int64} {s : List Value} : Makes .intInc (.int n :: s) (.int (n + 1)) s
  | intShl {n : Int64} {s : List Value} : Makes .intShl (.int n :: s) (.int (n + n)) s
  | intAdd {a b : Int64} {s : List Value} :
      Makes .intAdd (.int b :: .int a :: s) (.int (a + b)) s
  | intNeg {n : Int64} {s : List Value} : Makes .intNeg (.int n :: s) (.int (-n)) s
  | intShr {n : Int64} {s : List Value} : Makes .intShr (.int n :: s) (.int (n >>> 1)) s
  | intToFloat {n : Int64} {s : List Value} :
      Makes .intToFloat (.int n :: s) (.float ⟨n.toUInt64⟩) s
  | intToUint {n : Int64} {s : List Value} : Makes .intToUint (.int n :: s) (.uint n.toUInt64) s
  | floatInf {s : List Value} : Makes .floatInf s (.float .infinity) s
  | floatNan {s : List Value} : Makes .floatNan s (.float .nan) s
  | floatNeg {x : Binary64} {s : List Value} : Makes .floatNeg (.float x :: s) (.float x.neg) s
  | strNew {s : List Value} : Makes .strNew s (.str []) s
  | strAdd {n : Int64} {bytes : Bytes} {s : List Value} :
      Makes .strAdd (.int n :: .str bytes :: s) (.str (bytes ++ [n.toUInt64.toUInt8])) s
  | objNew {s : List Value} : Makes .objNew s (.object []) s
  | objAdd {v : Value} {key : Bytes} {entries : List (Bytes × Value)} {s : List Value} :
      Makes .objAdd (v :: .str key :: .object entries :: s)
        (.object (Entries.set key v entries)) s
  | arrNew {s : List Value} : Makes .arrNew s (.array []) s
  | arrAdd {v : Value} {items : List Value} {s : List Value} :
      Makes .arrAdd (v :: .array items :: s) (.array (items ++ [v])) s
  | boolNew {s : List Value} : Makes .boolNew s (.bool false) s
  | boolNeg {b : Bool} {s : List Value} : Makes .boolNeg (.bool b :: s) (.bool !b) s
  | nilNew {s : List Value} : Makes .nilNew s .nil s
  | dup {v : Value} {s : List Value} : Makes .dup (v :: s) v (v :: s)

theorem Makes.suffix {op : Opcode} {s rest : List Value} {v : Value} (h : op.Makes s v rest) :
    rest <:+ s := by
  cases h <;> simp [List.suffix_cons_iff]

/-- The kinds of operands that an opcode asks for, from the top of the stack down;
`none` stands for any kind. Copying asks for an operand and leaves it where it is. -/
def wants : Opcode → List (Option Kind)
  | .intInc | .intShl | .intNeg | .intShr | .intToFloat | .intToUint => [some .int]
  | .floatNeg => [some .float]
  | .boolNeg => [some .bool]
  | .intAdd => [some .int, some .int]
  | .strAdd => [some .int, some .str]
  | .arrAdd => [none, some .array]
  | .objAdd => [none, some .str, some .object]
  | .dup => [none]
  | .intNew | .floatInf | .floatNan | .strNew | .objNew | .arrNew | .boolNew | .nilNew => []

/-- Operands of the kinds asked for, the topmost first. -/
inductive Suits : List (Option Kind) → List Value → Prop
  | nil : Suits [] []
  | any {wants : List (Option Kind)} {v : Value} {operands : List Value} :
      Suits wants operands → Suits (none :: wants) (v :: operands)
  | kind {kind : Kind} {wants : List (Option Kind)} {v : Value} {operands : List Value} :
      v.kind = kind → Suits wants operands → Suits (some kind :: wants) (v :: operands)

/-- Operands are looked at one after another, and the first that is missing or of
the wrong kind stops the opcode. It is off the stack then, with those before it. -/
inductive Refuses (op : Opcode) : List (Option Kind) → List Value → List Value → Trap → Prop
  | missing {want : Option Kind} {wants : List (Option Kind)} :
      Refuses op (want :: wants) [] [] (.underflow op)
  | wrong {kind : Kind} {wants : List (Option Kind)} {v : Value} {s : List Value} :
      v.kind ≠ kind → Refuses op (some kind :: wants) (v :: s) s (.mismatch op kind v.kind)
  | later {want : Option Kind} {wants : List (Option Kind)} {v : Value} {s rest : List Value}
      {trap : Trap} : (∀ kind, want = some kind → v.kind = kind) →
      Refuses op wants s rest trap → Refuses op (want :: wants) (v :: s) rest trap

theorem Refuses.suffix {op : Opcode} {wants : List (Option Kind)} {s rest : List Value}
    {trap : Trap} (h : op.Refuses wants s rest trap) : rest <:+ s := by
  induction h with
  | missing => exact List.suffix_rfl
  | wrong _ => exact List.suffix_cons _ _
  | later _ _ ih => exact ih.trans (List.suffix_cons _ _)

theorem Refuses.trap_ne_overflow {op : Opcode} {wants : List (Option Kind)} {s rest : List Value}
    {trap : Trap} (h : op.Refuses wants s rest trap) (other : Opcode) (capacity : Nat) :
    trap ≠ .overflow other capacity := by
  induction h with
  | missing => nofun
  | wrong _ => nofun
  | later _ _ ih => exact ih

theorem suits_or_refuses (op : Opcode) (wants : List (Option Kind)) (s : List Value) :
    (∃ operands rest, s = operands ++ rest ∧ Suits wants operands) ∨
      ∃ rest trap, op.Refuses wants s rest trap := by
  induction wants generalizing s with
  | nil => exact .inl ⟨[], s, rfl, .nil⟩
  | cons want wants ih =>
      rcases s with _ | ⟨v, s⟩
      · exact .inr ⟨[], _, .missing⟩
      by_cases suits : ∀ kind, want = some kind → v.kind = kind
      · rcases ih s with ⟨operands, rest, rfl, h⟩ | ⟨rest, trap, h⟩
        · refine .inl ⟨v :: operands, rest, rfl, ?_⟩
          cases want with
          | none => exact .any h
          | some kind => exact .kind (suits kind rfl) h
        · exact .inr ⟨rest, trap, .later suits h⟩
      · obtain ⟨kind, rfl, wrong⟩ : ∃ kind, want = some kind ∧ v.kind ≠ kind := by
          simpa using suits
        exact .inr ⟨s, _, .wrong wrong⟩

/-- Suitable operands are enough for an opcode, whatever lies below them. -/
theorem exists_makes {op : Opcode} {operands : List Value} (h : Suits op.wants operands)
    (rest : List Value) : ∃ v below, op.Makes (operands ++ rest) v below := by
  cases op
  case intNew | floatInf | floatNan | strNew | objNew | arrNew | boolNew | nilNew =>
    exact ⟨_, _, by constructor⟩
  case intInc | intShl | intNeg | intShr | intToFloat | intToUint =>
    rcases h with _ | _ | ⟨hn, ⟨⟩⟩
    obtain ⟨n, rfl⟩ := Value.shape_of_kind hn
    exact ⟨_, _, by constructor⟩
  case floatNeg =>
    rcases h with _ | _ | ⟨hx, ⟨⟩⟩
    obtain ⟨x, rfl⟩ := Value.shape_of_kind hx
    exact ⟨_, _, .floatNeg⟩
  case boolNeg =>
    rcases h with _ | _ | ⟨hb, ⟨⟩⟩
    obtain ⟨b, rfl⟩ := Value.shape_of_kind hb
    exact ⟨_, _, .boolNeg⟩
  case intAdd =>
    rcases h with _ | _ | ⟨hb, _ | _ | ⟨ha, ⟨⟩⟩⟩
    obtain ⟨b, rfl⟩ := Value.shape_of_kind hb
    obtain ⟨a, rfl⟩ := Value.shape_of_kind ha
    exact ⟨_, _, .intAdd⟩
  case strAdd =>
    rcases h with _ | _ | ⟨hn, _ | _ | ⟨hs, ⟨⟩⟩⟩
    obtain ⟨n, rfl⟩ := Value.shape_of_kind hn
    obtain ⟨bytes, rfl⟩ := Value.shape_of_kind hs
    exact ⟨_, _, .strAdd⟩
  case arrAdd =>
    rcases h with _ | ⟨_ | _ | ⟨ha, ⟨⟩⟩⟩
    obtain ⟨items, rfl⟩ := Value.shape_of_kind ha
    exact ⟨_, _, .arrAdd⟩
  case objAdd =>
    rcases h with _ | ⟨_ | _ | ⟨hk, _ | _ | ⟨ho, ⟨⟩⟩⟩⟩
    obtain ⟨key, rfl⟩ := Value.shape_of_kind hk
    obtain ⟨entries, rfl⟩ := Value.shape_of_kind ho
    exact ⟨_, _, .objAdd⟩
  case dup =>
    rcases h with _ | ⟨⟨⟩⟩
    exact ⟨_, _, .dup⟩

/-- Either the values on top of the stack suit an opcode or one of them stops it. -/
theorem makes_or_refuses (op : Opcode) (s : List Value) :
    (∃ v rest, op.Makes s v rest) ∨ ∃ rest trap, op.Refuses op.wants s rest trap := by
  rcases suits_or_refuses op op.wants s with ⟨operands, rest, rfl, h⟩ | refused
  · exact .inl (exists_makes h rest)
  · exact .inr refused

end Opcode

namespace Machine

/-- The machine with other values on its stack. -/
def holding (m : Machine) (values : List Value) : Machine :=
  { m with stack := { m.stack with values } }

/-- The machine after an opcode that leaves these values on its stack. -/
def advanced (m : Machine) (values : List Value) : Machine :=
  { m.holding values with executed := m.executed + 1 }

theorem push_eq (m : Machine) (op : Opcode) (v : Value) :
    m.push op v =
      if m.depth < m.capacity then .ok (m.holding (v :: m.stack.values))
      else .fail m (.overflow op m.capacity) := by
  unfold push Stack.push?
  by_cases room : m.stack.depth < m.stack.capacity
  · rw [if_pos room]
    exact (if_pos room).symm
  · rw [if_neg room]
    exact (if_neg room).symm

theorem effect_of_makes {op : Opcode} {s rest : List Value} {v : Value} (h : op.Makes s v rest)
    (m : Machine) : (m.holding s).effect op = (m.holding rest).push op v := by
  cases h <;> rfl

theorem withOperand_refuses {m : Machine} {op : Opcode} {wants : List (Option Kind)}
    {s rest : List Value} {trap : Trap} {next : Machine → Value → Attempt Trap Machine}
    (h : op.Refuses (none :: wants) s rest trap)
    (later : ∀ v s, op.Refuses wants s rest trap →
      next (m.holding s) v = .fail (m.holding rest) trap) :
    (m.holding s).withOperand op next = .fail (m.holding rest) trap := by
  cases h with
  | missing => rfl
  | later _ h => exact later _ _ h

/-- The operands of one kind are those with a payload of that kind. -/
theorem withPayload_refuses {α : Type} {m : Machine} {op : Opcode} {kind : Kind}
    {wants : List (Option Kind)} {s rest : List Value} {trap : Trap}
    {payload? : Value → Option α} {next : Machine → α → Attempt Trap Machine}
    (view : ∀ v, payload? v = none ↔ v.kind ≠ kind)
    (h : op.Refuses (some kind :: wants) s rest trap)
    (later : ∀ a s, op.Refuses wants s rest trap →
      next (m.holding s) a = .fail (m.holding rest) trap) :
    (m.holding s).withPayload op kind payload? next = .fail (m.holding rest) trap := by
  cases h with
  | missing => rfl
  | @wrong _ _ v s wrong =>
      have none := (view v).2 wrong
      simp only [withPayload, withOperand, Stack.pop?, holding, none]
  | @later _ _ v s _ _ suits h =>
      obtain ⟨a, ha⟩ : ∃ a, payload? v = some a := by
        rw [← Option.ne_none_iff_exists', ne_eq, view v]
        exact fun wrong => wrong (suits kind rfl)
      simp only [withPayload, withOperand, Stack.pop?, holding, ha]
      exact later a s h

theorem effect_of_refuses {op : Opcode} {s rest : List Value} {trap : Trap}
    (h : op.Refuses op.wants s rest trap) (m : Machine) :
    (m.holding s).effect op = .fail (m.holding rest) trap := by
  cases op <;>
    simp only [effect, withInt, withFloat, withStr, withBool, withObject, withArray]
  case intNew | floatInf | floatNan | strNew | objNew | arrNew | boolNew | nilNew => cases h
  case intInc | intShl | intNeg | intShr | intToFloat | intToUint =>
    apply withPayload_refuses Value.asInt?_eq_none_iff h
    intro _ _ h
    cases h
  case floatNeg =>
    apply withPayload_refuses Value.asFloat?_eq_none_iff h
    intro _ _ h
    cases h
  case boolNeg =>
    apply withPayload_refuses Value.asBool?_eq_none_iff h
    intro _ _ h
    cases h
  case intAdd =>
    apply withPayload_refuses Value.asInt?_eq_none_iff h
    intro _ _ h
    apply withPayload_refuses Value.asInt?_eq_none_iff h
    intro _ _ h
    cases h
  case strAdd =>
    apply withPayload_refuses Value.asInt?_eq_none_iff h
    intro _ _ h
    apply withPayload_refuses Value.asStr?_eq_none_iff h
    intro _ _ h
    cases h
  case arrAdd =>
    apply withOperand_refuses h
    intro _ _ h
    apply withPayload_refuses Value.asArray?_eq_none_iff h
    intro _ _ h
    cases h
  case objAdd =>
    apply withOperand_refuses h
    intro _ _ h
    apply withPayload_refuses Value.asStr?_eq_none_iff h
    intro _ _ h
    apply withPayload_refuses Value.asObject?_eq_none_iff h
    intro _ _ h
    cases h
  case dup =>
    cases h with
    | missing => rfl
    | later _ h => cases h

/-- An opcode whose operands suit fails only if its result finds no room. -/
theorem step_of_makes {m : Machine} {op : Opcode} {v : Value} {rest : List Value}
    (h : op.Makes m.stack.values v rest) :
    m.step op =
      if rest.length < m.capacity then .ok (m.advanced (v :: rest))
      else .fail (m.holding rest) (.overflow op m.capacity) := by
  have effect : m.effect op = (m.holding rest).push op v := effect_of_makes h m
  rw [step, effect, push_eq]
  by_cases room : rest.length < m.capacity
  · rw [if_pos room]
    exact congrArg (Attempt.andThen · _) (if_pos room)
  · rw [if_neg room]
    exact congrArg (Attempt.andThen · _) (if_neg room)

/-- An opcode that an operand stops leaves what lies below that operand. -/
theorem step_of_refuses {m : Machine} {op : Opcode} {rest : List Value} {trap : Trap}
    (h : op.Refuses op.wants m.stack.values rest trap) :
    m.step op = .fail (m.holding rest) trap := by
  have effect : m.effect op = .fail (m.holding rest) trap := effect_of_refuses h m
  rw [step, effect, Attempt.andThen_fail]

/-- All that one opcode can do: advance, find no room, or be stopped by an operand. -/
theorem step_cases (m : Machine) (op : Opcode) :
    (∃ v rest, op.Makes m.stack.values v rest ∧ rest.length < m.capacity ∧
      m.step op = .ok (m.advanced (v :: rest))) ∨
    (∃ v rest, op.Makes m.stack.values v rest ∧ m.capacity ≤ rest.length ∧
      m.step op = .fail (m.holding rest) (.overflow op m.capacity)) ∨
    ∃ rest trap, op.Refuses op.wants m.stack.values rest trap ∧
      m.step op = .fail (m.holding rest) trap := by
  rcases op.makes_or_refuses m.stack.values with ⟨v, rest, h⟩ | ⟨rest, trap, h⟩
  · have step := step_of_makes h
    by_cases room : rest.length < m.capacity
    · rw [if_pos room] at step
      exact .inl ⟨v, rest, h, room, step⟩
    · rw [if_neg room] at step
      exact .inr (.inl ⟨v, rest, h, Nat.le_of_not_lt room, step⟩)
  · exact .inr (.inr ⟨rest, trap, h, step_of_refuses h⟩)

end Machine
end StackText
