import StackText.Value.Basic

/-!
# Changing a part of a value

A path leads from a value to one of its parts: through objects by key, through
arrays by position. `Value.edit` rebuilds a value around one changed part. Values
are never shared, so an edit leaves every other value as it was.
-/
namespace StackText

inductive PathStep where
  | key (bytes : Bytes)
  | index (i : Nat)
  deriving DecidableEq, Repr

inductive EditError where
  /-- The path leads through a part that does not exist or has no such parts. -/
  | noSuchPath
  | notAnArray
  | notAnObject
  deriving DecidableEq, Repr

def EditError.message : EditError → String
  | .noSuchPath => "no such path"
  | .notAnArray => "not an array"
  | .notAnObject => "not an object"

namespace Value

/-- Applies a change to the part at the end of a path. The change may also fail or
report something. -/
def edit {ρ : Type} (change : Value → Except EditError (Value × ρ)) :
    List PathStep → Value → Except EditError (Value × ρ)
  | [], v => change v
  | .key k :: path, .object entries => do
      match entries.lookup k with
      | none => .error .noSuchPath
      | some part =>
          let (part, report) ← edit change path part
          return (.object (Entries.set k part entries), report)
  | .index i :: path, .array items => do
      match items[i]? with
      | none => .error .noSuchPath
      | some part =>
          let (part, report) ← edit change path part
          return (.array (items.set i part), report)
  | _ :: _, _ => .error .noSuchPath

/-- Appends an item to the array at the end of a path. -/
def appendAt (v : Value) (path : List PathStep) (item : Value) : Except EditError Value := do
  let append : Value → Except EditError (Value × Unit)
    | .array items => .ok (.array (items ++ [item]), ())
    | _ => .error .notAnArray
  return (← v.edit append path).1

/-- Sets a key of the object at the end of a path, and reports what it stored before. -/
def insertAt (v : Value) (path : List PathStep) (key : Bytes) (item : Value) :
    Except EditError (Value × Option Value) :=
  let insert : Value → Except EditError (Value × Option Value)
    | .object entries => .ok (.object (Entries.set key item entries), entries.lookup key)
    | _ => .error .notAnObject
  v.edit insert path

end Value
end StackText
