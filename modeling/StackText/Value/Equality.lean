import StackText.Value.Basic

/-!
# Equality of values

Two values are equal if they have the same kind and the same payload. Numbers are
compared by their bits. Arrays are compared item by item. Objects are equal if
they have equally many entries and every key of one stores an equal value in the
other, so the order of the entries does not matter.
-/
namespace StackText.Value

mutual

def equal : Value → Value → Bool
  | .int a, .int b => a == b
  | .uint a, .uint b => a == b
  | .float a, .float b => a == b
  | .str a, .str b => a == b
  | .bool a, .bool b => a == b
  | .nil, .nil => true
  | .object a, .object b => a.length == b.length && storedEqual a b
  | .array a, .array b => itemsEqual a b
  | _, _ => false
  termination_by structural v => v

/-- Whether every entry on the left has an equal one under its key on the right. -/
def storedEqual : List (Bytes × Value) → List (Bytes × Value) → Bool
  | [], _ => true
  | (key, v) :: rest, others =>
      (match others.lookup key with
        | some w => equal v w
        | none => false) && storedEqual rest others
  termination_by structural entries => entries

def itemsEqual : List Value → List Value → Bool
  | [], [] => true
  | v :: vs, w :: ws => equal v w && itemsEqual vs ws
  | _, _ => false
  termination_by structural items => items

end

instance : BEq Value := ⟨equal⟩

end StackText.Value
