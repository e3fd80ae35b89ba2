/-!
# Failures of the outside

Reading and writing can fail for reasons outside the program. Such a failure has a
kind and a message, and both are passed on unchanged. Two kinds matter here: an
interrupted call is made again, and a sink that takes nothing is reported as a
failure of its own.
-/
namespace StackText

inductive IoErrorKind where
  /-- The call was interrupted and may be made again. -/
  | interrupted
  /-- A sink accepted nothing of what it was given. -/
  | writeZero
  | named (name : String)
  deriving DecidableEq, Repr

namespace IoErrorKind

def name : IoErrorKind → String
  | .interrupted => "Interrupted"
  | .writeZero => "WriteZero"
  | .named name => name

def ofName : String → IoErrorKind
  | "Interrupted" => .interrupted
  | "WriteZero" => .writeZero
  | name => .named name

end IoErrorKind

structure IoError where
  kind : IoErrorKind
  message : String
  deriving DecidableEq, Repr

/-- The failure of writing to a sink that accepts nothing. -/
def IoError.nothingWritten : IoError := ⟨.writeZero, "failed to write whole buffer"⟩

end StackText
