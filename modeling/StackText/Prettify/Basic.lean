import StackText.Opcode

/-!
# Prettifying programs

A mode says how an encoder may rephrase a program without changing what it
computes. In the pretty mode an addition right after a shift is written as two
negations and the addition: negating the addend twice leaves it as it was. Only the
opcode that was asked for just before counts, never one that an expansion put in.
-/
namespace StackText

inductive Mode where
  /-- Every opcode is written as it is. -/
  | plain
  /-- An addition after a shift is written with two negations before it. -/
  | pretty
  deriving DecidableEq, Repr

namespace Mode

/-- The mode that is used where none is chosen. -/
def default : Mode := .pretty

instance : Inhabited Mode := ⟨default⟩

def name : Mode → String
  | .plain => "plain"
  | .pretty => "pretty"

def ofName? : String → Option Mode
  | "plain" => some .plain
  | "pretty" => some .pretty
  | _ => none

/-- What is said about a word that names no mode. -/
def unknownMessage (word : String) : String :=
  "unknown mode '" ++ word ++ "', expected 'plain' or 'pretty'"

end Mode

/-- The two opcodes after which an addition is expanded. -/
def Opcode.isShift : Opcode → Bool
  | .intShl | .intShr => true
  | _ => false

/-- Whether an opcode is expanded, given the one asked for before it. -/
def Mode.expands (mode : Mode) (last : Option Opcode) (op : Opcode) : Bool :=
  mode == .pretty && op == .intAdd && last.any Opcode.isShift

/-- What is written for an opcode, given the one asked for before it. -/
def Mode.expansion (mode : Mode) (last : Option Opcode) (op : Opcode) : List Opcode :=
  if mode.expands last op then [.intNeg, .intNeg, .intAdd] else [op]

/-- Prettifies a program whose first opcode comes after `last`. -/
def prettifyAfter (mode : Mode) (last : Option Opcode) : List Opcode → List Opcode
  | [] => []
  | op :: rest => mode.expansion last op ++ prettifyAfter mode (some op) rest

def prettify (mode : Mode) (program : List Opcode) : List Opcode := prettifyAfter mode none program

end StackText
