import StackText.Opcode

/-!
# Alphabets

A program is written with one byte per opcode. An `Alphabet` says which byte stands
for which opcode; every byte that it does not assign is filler. The canonical one,
`Alphabet.ascii`, is a bijection between 21 printable ASCII characters and the
instruction set (`opcode?_token_ascii`).
-/
namespace StackText

structure Alphabet where
  /-- The opcode that a byte stands for, or `none` for filler. -/
  opcode? : UInt8 → Option Opcode
  token : Opcode → UInt8

namespace Alphabet

/-- The byte written for an opcode that the pairs leave out. -/
def unassigned : UInt8 := '#'.toUInt8

/-- The alphabet given by pairs. The first pair with a byte decides what the byte
means, and the first pair with an opcode decides how the opcode is written. -/
def ofPairs (pairs : List (UInt8 × Opcode)) : Alphabet where
  opcode? byte := (pairs.find? fun p => p.1 == byte).map (·.2)
  token op := ((pairs.find? fun p => p.2 == op).map (·.1)).getD unassigned

def letters : List (Char × Opcode) :=
  [('B', .intNew), ('u', .intInc), ('b', .intShl), ('a', .intAdd), ('A', .intNeg),
   ('e', .intShr), ('i', .intToFloat), ('\'', .intToUint), ('q', .floatInf), ('t', .floatNan),
   ('p', .floatNeg), ('?', .strNew), ('!', .strAdd), ('~', .objNew), ('M', .objAdd),
   ('@', .arrNew), ('s', .arrAdd), ('z', .boolNew), ('o', .boolNeg), ('.', .nilNew), ('*', .dup)]

/-- The canonical alphabet: one printable ASCII character per opcode. -/
def ascii : Alphabet := ofPairs (letters.map fun p => (p.1.toUInt8, p.2))

theorem opcode?_token_ascii (op : Opcode) : ascii.opcode? (ascii.token op) = some op := by
  cases op <;> decide

/-- Every canonical token is an ASCII character. -/
theorem token_ascii_lt (op : Opcode) : ascii.token op < 128 := by
  cases op <;> decide

/-- A line break is filler in the canonical alphabet. -/
theorem opcode?_ascii_newline : ascii.opcode? '\n'.toUInt8 = none := by decide

end Alphabet
end StackText
