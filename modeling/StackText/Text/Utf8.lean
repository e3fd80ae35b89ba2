/-!
# UTF-8

`Utf8.decode` reads bytes one at a time and yields the characters they encode. A
stretch that encodes none yields one gap: such a stretch ends before the first
byte that could not continue a character, so it is as long as possible without
taking away from what follows. `Utf8.decode?` is the strict reading, without gaps,
and `Utf8.decodeLossy` shows each gap as the replacement character.
-/
namespace StackText.Utf8

/-- A character of which some bytes have been read. -/
structure Unfinished where
  /-- The bits of its code point so far. -/
  bits : Nat
  /-- How many bytes must follow after the next one. -/
  missing : Nat
  /-- The least byte that may come next. -/
  low : UInt8
  /-- The greatest byte that may come next. -/
  high : UInt8
  deriving DecidableEq, Repr

/-- What a byte completes, a character or a gap, and what it leaves unfinished. -/
abbrev Step := List (Option Char) × Option Unfinished

/-- The first byte of a character. The bounds on the second byte rule out code
points written with more bytes than they need, surrogates, and code points beyond
the last one. -/
def first (b : UInt8) : Step :=
  if b < 0x80 then ([some (Char.ofNat b.toNat)], none)
  else if b < 0xC2 then ([none], none)
  else if b < 0xE0 then ([], some ⟨b.toNat % 32, 0, 0x80, 0xBF⟩)
  else if b = 0xE0 then ([], some ⟨0, 1, 0xA0, 0xBF⟩)
  else if b = 0xED then ([], some ⟨13, 1, 0x80, 0x9F⟩)
  else if b < 0xF0 then ([], some ⟨b.toNat % 16, 1, 0x80, 0xBF⟩)
  else if b = 0xF0 then ([], some ⟨0, 2, 0x90, 0xBF⟩)
  else if b < 0xF4 then ([], some ⟨b.toNat % 8, 2, 0x80, 0xBF⟩)
  else if b = 0xF4 then ([], some ⟨4, 2, 0x80, 0x8F⟩)
  else ([none], none)

/-- A byte that continues an unfinished character. -/
def Unfinished.extend (u : Unfinished) (b : UInt8) : Step :=
  let bits := u.bits * 64 + b.toNat % 64
  match u.missing with
  | 0 => ([some (Char.ofNat bits)], none)
  | more + 1 => ([], some ⟨bits, more, 0x80, 0xBF⟩)

/-- One byte. If it cannot continue what is unfinished, that becomes a gap and the
byte starts anew. -/
def step (state : Option Unfinished) (b : UInt8) : Step :=
  match state with
  | none => first b
  | some u =>
      if u.low ≤ b ∧ b ≤ u.high then u.extend b
      else (none :: (first b).1, (first b).2)

/-- Reads on from a state; an unfinished character at the end is a gap. -/
def decodeFrom (state : Option Unfinished) : List UInt8 → List (Option Char)
  | [] => if state.isSome then [none] else []
  | b :: rest => (step state b).1 ++ decodeFrom (step state b).2 rest

/-- The characters of a byte string, with a gap for each invalid stretch. -/
def decode (bytes : List UInt8) : List (Option Char) := decodeFrom none bytes

/-- The characters of a byte string that is valid throughout. -/
def decode? (bytes : List UInt8) : Option (List Char) := (decode bytes).mapM id

/-- The characters of a byte string, gaps shown as the replacement character. -/
def decodeLossy (bytes : List UInt8) : List Char :=
  (decode bytes).map fun c => c.getD '\uFFFD'

/-- The bytes of a list of characters. -/
def encode (cs : List Char) : List UInt8 := cs.flatMap String.utf8EncodeChar

/-- Whether a byte string is the encoding of some characters. -/
def IsValid (bytes : List UInt8) : Prop := (decode? bytes).isSome

instance (bytes : List UInt8) : Decidable (IsValid bytes) :=
  inferInstanceAs (Decidable ((decode? bytes).isSome = true))

end StackText.Utf8
