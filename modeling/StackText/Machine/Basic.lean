import StackText.Attempt
import StackText.Stack
import StackText.Machine.Trap

/-!
# The machine

A `Machine` executes opcodes on a stack of values. Operands are taken off from the
top, each checked as it comes, and the result is pushed. What has been taken off
stays off when the opcode then fails, so `Machine.step` is an `Attempt`: it leaves
a machine behind in any case, and the count of executed opcodes grows only on
success. Integer arithmetic wraps around at 64 bits.
-/
namespace StackText

structure Machine where
  stack : Stack Value
  /-- How many opcodes have been executed successfully. -/
  executed : Nat := 0
  deriving Repr

namespace Machine

def defaultCapacity : Nat := 1024

/-- The capacity meant by a requested one: a request that is not positive stands
for the default. -/
def effectiveCapacity (requested : Int) : Nat :=
  if requested ≤ 0 then defaultCapacity else requested.toNat

def ofCapacity (capacity : Nat) : Machine := ⟨⟨capacity, []⟩, 0⟩

def ofRequest (requested : Int) : Machine := ofCapacity (effectiveCapacity requested)

def fresh : Machine := ofCapacity defaultCapacity

def capacity (m : Machine) : Nat := m.stack.capacity

def depth (m : Machine) : Nat := m.stack.depth

def push (m : Machine) (op : Opcode) (v : Value) : Attempt Trap Machine :=
  match m.stack.push? v with
  | some stack => .ok { m with stack }
  | none => .fail m (.overflow op m.capacity)

/-- Takes an operand of any kind off the stack and goes on with it. -/
def withOperand (m : Machine) (op : Opcode)
    (next : Machine → Value → Attempt Trap Machine) : Attempt Trap Machine :=
  match m.stack.pop? with
  | some (v, stack) => next { m with stack } v
  | none => .fail m (.underflow op)

/-- Takes an operand of one kind off the stack and goes on with its payload. An
operand of another kind is off the stack as well. -/
def withPayload {α : Type} (m : Machine) (op : Opcode) (kind : Kind)
    (payload? : Value → Option α) (next : Machine → α → Attempt Trap Machine) :
    Attempt Trap Machine :=
  m.withOperand op fun m v =>
    match payload? v with
    | some a => next m a
    | none => .fail m (.mismatch op kind v.kind)

def withInt (m : Machine) (op : Opcode) (next : Machine → Int64 → Attempt Trap Machine) :
    Attempt Trap Machine :=
  m.withPayload op .int Value.asInt? next

def withFloat (m : Machine) (op : Opcode) (next : Machine → Binary64 → Attempt Trap Machine) :
    Attempt Trap Machine :=
  m.withPayload op .float Value.asFloat? next

def withStr (m : Machine) (op : Opcode) (next : Machine → Bytes → Attempt Trap Machine) :
    Attempt Trap Machine :=
  m.withPayload op .str Value.asStr? next

def withBool (m : Machine) (op : Opcode) (next : Machine → Bool → Attempt Trap Machine) :
    Attempt Trap Machine :=
  m.withPayload op .bool Value.asBool? next

def withObject (m : Machine) (op : Opcode)
    (next : Machine → Entries Bytes Value → Attempt Trap Machine) : Attempt Trap Machine :=
  m.withPayload op .object Value.asObject? next

def withArray (m : Machine) (op : Opcode)
    (next : Machine → List Value → Attempt Trap Machine) : Attempt Trap Machine :=
  m.withPayload op .array Value.asArray? next

def effect (m : Machine) (op : Opcode) : Attempt Trap Machine :=
  match op with
  | .intNew => m.push op (.int 0)
  | .intInc => m.withInt op fun m n => m.push op (.int (n + 1))
  | .intShl => m.withInt op fun m n => m.push op (.int (n + n))
  | .intAdd => m.withInt op fun m b => m.withInt op fun m a => m.push op (.int (a + b))
  | .intNeg => m.withInt op fun m n => m.push op (.int (-n))
  | .intShr => m.withInt op fun m n => m.push op (.int (n >>> 1))
  | .intToFloat => m.withInt op fun m n => m.push op (.float ⟨n.toUInt64⟩)
  | .intToUint => m.withInt op fun m n => m.push op (.uint n.toUInt64)
  | .floatInf => m.push op (.float .infinity)
  | .floatNan => m.push op (.float .nan)
  | .floatNeg => m.withFloat op fun m x => m.push op (.float x.neg)
  | .strNew => m.push op (.str [])
  | .strAdd => m.withInt op fun m n => m.withStr op fun m s =>
      m.push op (.str (s ++ [n.toUInt64.toUInt8]))
  | .objNew => m.push op (.object [])
  | .objAdd => m.withOperand op fun m v => m.withStr op fun m key => m.withObject op fun m es =>
      m.push op (.object (Entries.set key v es))
  | .arrNew => m.push op (.array [])
  | .arrAdd => m.withOperand op fun m v => m.withArray op fun m items =>
      m.push op (.array (items ++ [v]))
  | .boolNew => m.push op (.bool false)
  | .boolNeg => m.withBool op fun m b => m.push op (.bool !b)
  | .nilNew => m.push op .nil
  | .dup =>
      match m.stack.top? with
      | some v => m.push op v
      | none => .fail m (.underflow op)

/-- Executes one opcode, and counts it if it succeeds. -/
def step (m : Machine) (op : Opcode) : Attempt Trap Machine :=
  (m.effect op).andThen fun m => .ok { m with executed := m.executed + 1 }

/-- Executes opcodes until one fails. -/
def steps (m : Machine) (ops : List Opcode) : Attempt Trap Machine :=
  Attempt.runAll step m ops

/-- The result so far: the top of the stack. -/
def top? (m : Machine) : Option Value := m.stack.top?

end Machine
end StackText
