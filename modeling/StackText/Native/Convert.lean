import StackText.Native.Type
import StackText.Number.Precision
import StackText.Text.Utf8

/-!
# Conversion between native data and values

`NativeType.toValue` turns native data into a value; it fails only at a whole number
that does not fit in 64 bits. `NativeType.ofValue` goes back and checks the kind of
every part it meets. Both work through lists and maps from front to back and report
the first failure. In a map each key is checked before what it stores.
-/
namespace StackText

/-- A type that a value of the right kind may still be out of range for. -/
inductive RangeTarget where
  | int (type : IntType)
  | text
  deriving DecidableEq, Repr

def RangeTarget.name : RangeTarget → String
  | .int type => type.name
  | .text => "String (invalid UTF-8)"

inductive ConversionError where
  /-- A native number has no value because it does not fit in 64 bits. -/
  | unsupported (type : IntType) (n : Int)
  /-- A value of one kind was expected and one of another found. -/
  | mismatch (expected actual : Kind)
  /-- The payload of a value does not belong to the native type. -/
  | outOfRange (target : RangeTarget)
  deriving DecidableEq, Repr

def ConversionError.message : ConversionError → String
  | .unsupported type n =>
      "unsupported native type: " ++ type.name ++ " " ++ toString n ++ " does not fit in 64 bits"
  | .mismatch expected actual => "cannot convert " ++ actual.name ++ " into " ++ expected.name
  | .outOfRange target => "value out of range for " ++ target.name

namespace NativeType

def intToValue : (type : IntType) → Int → Except ConversionError Value
  | .signed w, n =>
      if (IntType.signed .w64).Holds n then .ok (.int (Int64.ofInt n))
      else .error (.unsupported (.signed w) n)
  | .unsigned w, n =>
      if (IntType.unsigned .w64).Holds n then .ok (.uint n.toNat.toUInt64)
      else .error (.unsupported (.unsigned w) n)

def textBytes (s : String) : Bytes := Utf8.encode s.toList

/-- The value of native data. -/
def toValue : (t : NativeType) → t.Carrier → Except ConversionError Value
  | .int type, n => intToValue type n.val
  | .single, x => .ok (.float (Binary32.widen x))
  | .double, x => .ok (.float x)
  | .bool, b => .ok (.bool b)
  | .text, s => .ok (.str (textBytes s))
  | .value, v => .ok v
  | .option item, x =>
      match (x : Option item.Carrier) with
      | none => .ok .nil
      | some a => toValue item a
  | .list item, xs => do
      let values ← List.mapM (fun x => toValue item x) (xs : List item.Carrier)
      return .array values
  | .sortedMap item, m => do
      let pairs ← (SortedMap.entries m).mapM fun e =>
        return (textBytes e.1, ← toValue item e.2)
      return .ofPairs pairs
  | .unorderedMap item, m => do
      let pairs ← (UnorderedMap.entries m).mapM fun e =>
        return (textBytes e.1, ← toValue item e.2)
      return .ofPairs pairs

/-- The payload of a value that has to be of a given kind. -/
def expect {α : Type} (kind : Kind) (payload? : Value → Option α) (v : Value) :
    Except ConversionError α :=
  match payload? v with
  | some a => .ok a
  | none => .error (.mismatch kind v.kind)

/-- The payload of a value of whole-number kind. -/
def intOfValue : (type : IntType) → Value → Except ConversionError Int
  | .signed _, v => (expect .int Value.asInt? v).map Int64.toInt
  | .unsigned _, v => (expect .uint Value.asUint? v).map fun n => n.toNat

def textOfBytes (bytes : Bytes) : Except ConversionError String :=
  match Utf8.decode? bytes with
  | some cs => .ok (String.ofList cs)
  | none => .error (.outOfRange .text)

/-- Native data from a value. -/
def ofValue : (t : NativeType) → Value → Except ConversionError t.Carrier
  | .int type, v => do
      let n ← intOfValue type v
      if h : type.Holds n then .ok ⟨n, h⟩ else .error (.outOfRange (.int type))
  | .single, v => (expect .float Value.asFloat? v).map Binary64.narrow
  | .double, v => expect .float Value.asFloat? v
  | .bool, v => expect .bool Value.asBool? v
  | .text, v => do textOfBytes (← expect .str Value.asStr? v)
  | .value, v => .ok v
  | .option item, v =>
      if v.isNil then .ok (none : Option item.Carrier)
      else do return (some (← ofValue item v) : Option item.Carrier)
  | .list item, v => do
      let items ← expect .array Value.asArray? v
      (items.mapM fun x => ofValue item x : Except ConversionError (List item.Carrier))
  | .sortedMap item, v => do
      let entries ← expect .object Value.asObject? v
      let pairs ← entries.mapM fun e => do
        return (← textOfBytes e.1, ← ofValue item e.2)
      return SortedMap.ofPairs pairs
  | .unorderedMap item, v => do
      let entries ← expect .object Value.asObject? v
      let pairs ← entries.mapM fun e => do
        return (← textOfBytes e.1, ← ofValue item e.2)
      return UnorderedMap.ofPairs pairs

end NativeType
end StackText
