import StackText.Number.Binary64
import StackText.Entries

/-!
# Values

What a program describes: numbers of three kinds, byte strings, truth values, nil,
objects and arrays. A `Kind` is the tag of a value. The views `asInt?`, `asStr?`
and so on give the payload of a value of one kind and nothing for the others.
-/
namespace StackText

/-- Whole numbers are two's-complement words of 64 bits. A string is any sequence
of bytes. The entries of an object keep their order of insertion. -/
inductive Value where
  | int (n : Int64)
  | uint (n : UInt64)
  | float (x : Binary64)
  | str (bytes : Bytes)
  | bool (b : Bool)
  | nil
  | object (entries : List (Bytes × Value))
  | array (items : List Value)
  deriving Repr, Inhabited

inductive Kind where
  | int | uint | float | str | bool | nil | object | array
  deriving DecidableEq, Repr, Inhabited

/-- The name of a kind in messages. -/
def Kind.name : Kind → String
  | .int => "int"
  | .uint => "uint"
  | .float => "float"
  | .str => "string"
  | .bool => "bool"
  | .nil => "nil"
  | .object => "object"
  | .array => "array"

namespace Value

def kind : Value → Kind
  | .int _ => .int
  | .uint _ => .uint
  | .float _ => .float
  | .str _ => .str
  | .bool _ => .bool
  | .nil => .nil
  | .object _ => .object
  | .array _ => .array

def asInt? : Value → Option Int64
  | .int n => some n
  | _ => none

def asUint? : Value → Option UInt64
  | .uint n => some n
  | _ => none

def asFloat? : Value → Option Binary64
  | .float x => some x
  | _ => none

def asStr? : Value → Option Bytes
  | .str bytes => some bytes
  | _ => none

def asBool? : Value → Option Bool
  | .bool b => some b
  | _ => none

def asObject? : Value → Option (Entries Bytes Value)
  | .object entries => some entries
  | _ => none

def asArray? : Value → Option (List Value)
  | .array items => some items
  | _ => none

def isNil : Value → Bool
  | .nil => true
  | _ => false

/-- What an object stores under a key. -/
def get? (v : Value) (key : Bytes) : Option Value :=
  v.asObject?.bind fun entries => entries.lookup key

/-- The object that results from setting pairs one after another: a repeated key
keeps its first position and takes its last value. -/
def ofPairs (pairs : List (Bytes × Value)) : Value := .object (Entries.ofPairs pairs)

end Value
end StackText
