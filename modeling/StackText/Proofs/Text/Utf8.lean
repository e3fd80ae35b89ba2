import StackText.Text.Utf8

/-!
# Encoded characters are read back

The bytes of a character take the reader from its start to its start again, and the
character is all that it yields. The bounds on the second byte admit just the code points
that need as many bytes and are characters. So whatever is encoded is valid, and no two
texts have the same bytes. Nor do two byte strings read as the same text: what the reader
has seen of a character is always what its encoding begins with (`Unfinished.Spells`), so
what is read without a gap is encoded as it was (`encode_of_decode?`).
-/
namespace StackText.Utf8

namespace Unfinished

/-- The next byte is within the bounds. -/
structure Admits (u : Unfinished) (b : UInt8) : Prop where
  low_le : u.low.toNat ≤ b.toNat
  le_high : b.toNat ≤ u.high.toNat

theorem admits_iff {u : Unfinished} {b : UInt8} :
    u.Admits b ↔ u.low.toNat ≤ b.toNat ∧ b.toNat ≤ u.high.toNat :=
  ⟨fun h => ⟨h.low_le, h.le_high⟩, fun h => ⟨h.1, h.2⟩⟩

/-- After the first byte of three. -/
def afterThree (b : UInt8) : Unfinished :=
  ⟨b.toNat % 16, 1, if b.toNat = 0xE0 then 0xA0 else 0x80, if b.toNat = 0xED then 0x9F else 0xBF⟩

/-- After the first byte of four. -/
def afterFour (b : UInt8) : Unfinished :=
  ⟨b.toNat % 8, 2, if b.toNat = 0xF0 then 0x90 else 0x80, if b.toNat = 0xF4 then 0x8F else 0xBF⟩

theorem narrowed_low_le_iff {least : Prop} {_ : Decidable least} {low next : UInt8}
    (low_ge : 0x80 ≤ low.toNat) :
    (if least then low else 0x80).toNat ≤ next.toNat ↔
      0x80 ≤ next.toNat ∧ (least → low.toNat ≤ next.toNat) := by
  split
  · simp_all
    omega
  · simp_all

theorem le_narrowed_high_iff {last : Prop} {_ : Decidable last} {high next : UInt8}
    (high_le : high.toNat ≤ 0xBF) :
    next.toNat ≤ (if last then high else 0xBF).toNat ↔
      next.toNat ≤ 0xBF ∧ (last → next.toNat ≤ high.toNat) := by
  split
  · simp_all
    omega
  · simp_all

/-- The second byte of three rules out two bytes written as three, and surrogates. -/
theorem afterThree_admits_iff {b next : UInt8} :
    (afterThree b).Admits next ↔ (0x80 ≤ next.toNat ∧ next.toNat ≤ 0xBF) ∧
      (b.toNat = 0xE0 → 0xA0 ≤ next.toNat) ∧ (b.toNat = 0xED → next.toNat ≤ 0x9F) := by
  have low : (afterThree b).low.toNat ≤ next.toNat ↔ _ := narrowed_low_le_iff (by decide)
  have high : next.toNat ≤ (afterThree b).high.toNat ↔ _ := le_narrowed_high_iff (by decide)
  exact admits_iff.trans ((and_congr low high).trans and_and_and_comm)

/-- The second byte of four rules out three bytes written as four, and what is beyond the
last code point. -/
theorem afterFour_admits_iff {b next : UInt8} :
    (afterFour b).Admits next ↔ (0x80 ≤ next.toNat ∧ next.toNat ≤ 0xBF) ∧
      (b.toNat = 0xF0 → 0x90 ≤ next.toNat) ∧ (b.toNat = 0xF4 → next.toNat ≤ 0x8F) := by
  have low : (afterFour b).low.toNat ≤ next.toNat ↔ _ := narrowed_low_le_iff (by decide)
  have high : next.toNat ≤ (afterFour b).high.toNat ↔ _ := le_narrowed_high_iff (by decide)
  exact admits_iff.trans ((and_congr low high).trans and_and_and_comm)

end Unfinished

section
variable {u : Unfinished} {b next : UInt8} {n : Nat}

theorem decodeFrom_first (h : first b = ([], some u)) (rest : List UInt8) :
    decodeFrom none (b :: rest) = decodeFrom (some u) rest := by
  rw [decodeFrom, step, h]
  rfl

theorem decodeFrom_continued (admits : u.Admits b) {more : Nat} (missing : u.missing = more + 1)
    (rest : List UInt8) :
    decodeFrom (some u) (b :: rest) =
      decodeFrom (some ⟨u.bits * 64 + b.toNat % 64, more, 0x80, 0xBF⟩) rest := by
  rw [decodeFrom, step, if_pos ⟨admits.low_le, admits.le_high⟩]
  simp [Unfinished.extend, missing]

theorem decodeFrom_completed (admits : u.Admits b) (missing : u.missing = 0)
    (rest : List UInt8) :
    decodeFrom (some u) (b :: rest) =
      some (Char.ofNat (u.bits * 64 + b.toNat % 64)) :: decodeFrom none rest := by
  rw [decodeFrom, step, if_pos ⟨admits.low_le, admits.le_high⟩]
  simp [Unfinished.extend, missing]

theorem first_one (h : b.toNat < 0x80) : first b = ([some (Char.ofNat b.toNat)], none) := by
  simp only [first, UInt8.lt_iff_toNat_lt, UInt8.reduceToNat]
  rw [if_pos h]

theorem first_two (low : 0xC2 ≤ b.toNat) (high : b.toNat < 0xE0) :
    first b = ([], some ⟨b.toNat % 32, 0, 0x80, 0xBF⟩) := by
  simp only [first, UInt8.lt_iff_toNat_lt, UInt8.reduceToNat]
  rw [if_neg (by omega), if_neg (by omega), if_pos high]

theorem first_stray (h : 0x80 ≤ b.toNat ∧ b.toNat < 0xC2 ∨ 0xF4 < b.toNat) :
    first b = ([none], none) := by
  simp only [first, UInt8.lt_iff_toNat_lt, ← UInt8.toNat_inj, UInt8.reduceToNat]
  rcases h with ⟨low, high⟩ | above
  · rw [if_neg (Nat.not_lt.2 low), if_pos high]
  · rw [if_neg (by omega), if_neg (by omega), if_neg (by omega), if_neg (by omega),
      if_neg (by omega), if_neg (by omega), if_neg (by omega), if_neg (by omega),
      if_neg (by omega)]

theorem first_three (low : 0xE0 ≤ b.toNat) (high : b.toNat < 0xF0) :
    first b = ([], some (.afterThree b)) := by
  simp only [first, Unfinished.afterThree, UInt8.lt_iff_toNat_lt, ← UInt8.toNat_inj,
    UInt8.reduceToNat]
  rw [if_neg (by omega), if_neg (by omega), if_neg (by omega)]
  by_cases least : b.toNat = 0xE0
  · rw [if_pos least, if_pos least, if_neg (by omega), least]
  rw [if_neg least, if_neg least]
  by_cases surrogates : b.toNat = 0xED
  · rw [if_pos surrogates, if_pos surrogates, surrogates]
  · rw [if_neg surrogates, if_neg surrogates, if_pos high]

theorem first_four (low : 0xF0 ≤ b.toNat) (high : b.toNat ≤ 0xF4) :
    first b = ([], some (.afterFour b)) := by
  simp only [first, Unfinished.afterFour, UInt8.lt_iff_toNat_lt, ← UInt8.toNat_inj,
    UInt8.reduceToNat]
  rw [if_neg (by omega), if_neg (by omega), if_neg (by omega), if_neg (by omega),
    if_neg (by omega), if_neg (by omega)]
  by_cases least : b.toNat = 0xF0
  · rw [if_pos least, if_pos least, if_neg (by omega), least]
  rw [if_neg least, if_neg least]
  by_cases greatest : b.toNat = 0xF4
  · rw [if_neg (by omega), if_pos greatest, if_pos greatest, greatest]
  · rw [if_pos (by omega), if_neg greatest]

end

/-- A byte behind the first one, with six bits of the code point. -/
theorem toNat_continuation (n : Nat) : (UInt8.ofNat (n % 64 + 128)).toNat = n % 64 + 128 := by
  rw [UInt8.toNat_ofNat']
  omega

theorem continuation_bounds (n : Nat) :
    0x80 ≤ (UInt8.ofNat (n % 64 + 128)).toNat ∧ (UInt8.ofNat (n % 64 + 128)).toNat ≤ 0xBF := by
  rw [toNat_continuation]
  omega

theorem admits_continuation (bits missing n : Nat) :
    Unfinished.Admits ⟨bits, missing, 0x80, 0xBF⟩ (UInt8.ofNat (n % 64 + 128)) :=
  ⟨(continuation_bounds n).1, (continuation_bounds n).2⟩

section
variable {c : Char}

theorem utf8EncodeChar_one (high : c.toNat ≤ 0x7F) :
    String.utf8EncodeChar c = [UInt8.ofNat c.toNat] := if_pos high

theorem utf8EncodeChar_two (low : 0x7F < c.toNat) (high : c.toNat ≤ 0x7FF) :
    String.utf8EncodeChar c =
      [UInt8.ofNat (c.toNat / 64 % 32 + 192), UInt8.ofNat (c.toNat % 64 + 128)] :=
  (if_neg (Nat.not_le.2 low)).trans (if_pos high)

theorem utf8EncodeChar_three (low : 0x7FF < c.toNat) (high : c.toNat ≤ 0xFFFF) :
    String.utf8EncodeChar c =
      [UInt8.ofNat (c.toNat / 4096 % 16 + 224), UInt8.ofNat (c.toNat / 64 % 64 + 128),
        UInt8.ofNat (c.toNat % 64 + 128)] :=
  (if_neg (show ¬ c.toNat ≤ 0x7F by omega)).trans
    ((if_neg (Nat.not_le.2 low)).trans (if_pos high))

theorem utf8EncodeChar_four (low : 0xFFFF < c.toNat) :
    String.utf8EncodeChar c =
      [UInt8.ofNat (c.toNat / 262144 % 8 + 240), UInt8.ofNat (c.toNat / 4096 % 64 + 128),
        UInt8.ofNat (c.toNat / 64 % 64 + 128), UInt8.ofNat (c.toNat % 64 + 128)] :=
  (if_neg (show ¬ c.toNat ≤ 0x7F by omega)).trans
    ((if_neg (show ¬ c.toNat ≤ 0x7FF by omega)).trans (if_neg (Nat.not_le.2 low)))

end

section
variable {n : Nat} (rest : List UInt8)

theorem decodeFrom_two (low : 0x7F < n) (high : n ≤ 0x7FF) :
    decodeFrom none (UInt8.ofNat (n / 64 % 32 + 192) :: UInt8.ofNat (n % 64 + 128) :: rest) =
      some (Char.ofNat n) :: decodeFrom none rest := by
  have lead : (UInt8.ofNat (n / 64 % 32 + 192)).toNat = n / 64 % 32 + 192 := by
    rw [UInt8.toNat_ofNat']
    omega
  have started := first_two (b := UInt8.ofNat (n / 64 % 32 + 192)) (by omega) (by omega)
  rw [decodeFrom_first started, decodeFrom_completed (admits_continuation _ _ _) rfl, lead,
    toNat_continuation]
  have code : (n / 64 % 32 + 192) % 32 * 64 + (n % 64 + 128) % 64 = n := by omega
  rw [code]

theorem decodeFrom_three (low : 0x7FF < n) (high : n ≤ 0xFFFF)
    (noSurrogate : n < 0xD800 ∨ 0xDFFF < n) :
    decodeFrom none (UInt8.ofNat (n / 4096 % 16 + 224) :: UInt8.ofNat (n / 64 % 64 + 128) ::
        UInt8.ofNat (n % 64 + 128) :: rest) =
      some (Char.ofNat n) :: decodeFrom none rest := by
  have lead : (UInt8.ofNat (n / 4096 % 16 + 224)).toNat = n / 4096 % 16 + 224 := by
    rw [UInt8.toNat_ofNat']
    omega
  have second := toNat_continuation (n / 64)
  have admits : (Unfinished.afterThree (UInt8.ofNat (n / 4096 % 16 + 224))).Admits
      (UInt8.ofNat (n / 64 % 64 + 128)) :=
    Unfinished.afterThree_admits_iff.2 ⟨continuation_bounds (n / 64), by omega, by omega⟩
  have code : ((n / 4096 % 16 + 224) % 16 * 64 + (n / 64 % 64 + 128) % 64) * 64 +
      (n % 64 + 128) % 64 = n := by omega
  rw [decodeFrom_first (first_three (by omega) (by omega)), decodeFrom_continued admits rfl,
    decodeFrom_completed (admits_continuation _ _ _) rfl, Unfinished.afterThree, lead,
    toNat_continuation, toNat_continuation, code]

theorem decodeFrom_four (low : 0xFFFF < n) (high : n < 0x110000) :
    decodeFrom none (UInt8.ofNat (n / 262144 % 8 + 240) :: UInt8.ofNat (n / 4096 % 64 + 128) ::
        UInt8.ofNat (n / 64 % 64 + 128) :: UInt8.ofNat (n % 64 + 128) :: rest) =
      some (Char.ofNat n) :: decodeFrom none rest := by
  have lead : (UInt8.ofNat (n / 262144 % 8 + 240)).toNat = n / 262144 % 8 + 240 := by
    rw [UInt8.toNat_ofNat']
    omega
  have second := toNat_continuation (n / 4096)
  have admits : (Unfinished.afterFour (UInt8.ofNat (n / 262144 % 8 + 240))).Admits
      (UInt8.ofNat (n / 4096 % 64 + 128)) :=
    Unfinished.afterFour_admits_iff.2 ⟨continuation_bounds (n / 4096), by omega, by omega⟩
  have code : (((n / 262144 % 8 + 240) % 8 * 64 + (n / 4096 % 64 + 128) % 64) * 64 +
      (n / 64 % 64 + 128) % 64) * 64 + (n % 64 + 128) % 64 = n := by omega
  rw [decodeFrom_first (first_four (by omega) (by omega)), decodeFrom_continued admits rfl,
    decodeFrom_continued (admits_continuation _ _ _) rfl,
    decodeFrom_completed (admits_continuation _ _ _) rfl, Unfinished.afterFour, lead,
    toNat_continuation, toNat_continuation, toNat_continuation, code]

theorem decodeFrom_utf8EncodeChar (c : Char) :
    decodeFrom none (String.utf8EncodeChar c ++ rest) = some c :: decodeFrom none rest := by
  have valid : c.toNat < 0xD800 ∨ 0xDFFF < c.toNat ∧ c.toNat < 0x110000 := c.valid
  have same : Char.ofNat c.toNat = c := Char.ofNat_toNat c
  by_cases one : c.toNat ≤ 0x7F
  · have lead : (UInt8.ofNat c.toNat).toNat = c.toNat := by
      rw [UInt8.toNat_ofNat']
      omega
    rw [utf8EncodeChar_one one, List.singleton_append, decodeFrom, step, first_one (by omega),
      lead, same]
    rfl
  by_cases two : c.toNat ≤ 0x7FF
  · have read := decodeFrom_two rest (Nat.lt_of_not_le one) two
    rw [same] at read
    rwa [utf8EncodeChar_two (Nat.lt_of_not_le one) two]
  by_cases three : c.toNat ≤ 0xFFFF
  · have read := decodeFrom_three rest (Nat.lt_of_not_le two) three (valid.imp_right And.left)
    rw [same] at read
    rwa [utf8EncodeChar_three (Nat.lt_of_not_le two) three]
  · have read := decodeFrom_four rest (Nat.lt_of_not_le three) (by omega)
    rw [same] at read
    rwa [utf8EncodeChar_four (Nat.lt_of_not_le three)]

end

theorem decode_encode (cs : List Char) : decode (encode cs) = cs.map some := by
  rw [decode, encode]
  induction cs with
  | nil => rfl
  | cons c cs ih => rw [List.flatMap_cons, decodeFrom_utf8EncodeChar, ih, List.map_cons]

/-- What is encoded is valid, and is read back as it was. -/
theorem decode?_encode (cs : List Char) : decode? (encode cs) = some cs := by
  rw [decode?, decode_encode]
  induction cs with
  | nil => rfl
  | cons c cs ih => simp [ih]

/-- Nothing is lost where nothing is invalid. -/
theorem decodeLossy_encode (cs : List Char) : decodeLossy (encode cs) = cs := by
  rw [decodeLossy, decode_encode, List.map_map]
  exact List.map_id' cs

theorem encode_injective {cs ds : List Char} (h : encode cs = encode ds) : cs = ds := by
  have read := congrArg decode? h
  rw [decode?_encode, decode?_encode] at read
  exact Option.some.inj read

section
variable {b x y z : UInt8}

theorem toNat_charOfNat {n : Nat} (valid : n < 0xD800 ∨ 0xDFFF < n ∧ n < 0x110000) :
    (Char.ofNat n).toNat = n := by
  have isValid : n.isValidChar := valid
  rw [Char.ofNat, dif_pos isValid]
  rfl

theorem encode_code_two (low : 0xC2 ≤ b.toNat) (high : b.toNat < 0xE0)
    (second : 0x80 ≤ x.toNat ∧ x.toNat ≤ 0xBF) :
    String.utf8EncodeChar (Char.ofNat (b.toNat % 32 * 64 + x.toNat % 64)) = [b, x] := by
  have code := toNat_charOfNat (n := b.toNat % 32 * 64 + x.toNat % 64) (by omega)
  have lead : (b.toNat % 32 * 64 + x.toNat % 64) / 64 % 32 + 192 = b.toNat := by omega
  have last : (b.toNat % 32 * 64 + x.toNat % 64) % 64 + 128 = x.toNat := by omega
  rw [utf8EncodeChar_two (by omega) (by omega), code, lead, last, UInt8.ofNat_toNat,
    UInt8.ofNat_toNat]

theorem encode_code_three (low : 0xE0 ≤ b.toNat) (high : b.toNat < 0xF0)
    (second : 0x80 ≤ x.toNat ∧ x.toNat ≤ 0xBF) (needed : b.toNat = 0xE0 → 0xA0 ≤ x.toNat)
    (noSurrogate : b.toNat = 0xED → x.toNat ≤ 0x9F) (third : 0x80 ≤ y.toNat ∧ y.toNat ≤ 0xBF) :
    String.utf8EncodeChar
      (Char.ofNat ((b.toNat % 16 * 64 + x.toNat % 64) * 64 + y.toNat % 64)) = [b, x, y] := by
  have code := toNat_charOfNat
    (n := (b.toNat % 16 * 64 + x.toNat % 64) * 64 + y.toNat % 64) (by omega)
  have lead : ((b.toNat % 16 * 64 + x.toNat % 64) * 64 + y.toNat % 64) / 4096 % 16 + 224 =
      b.toNat := by omega
  have middle : ((b.toNat % 16 * 64 + x.toNat % 64) * 64 + y.toNat % 64) / 64 % 64 + 128 =
      x.toNat := by omega
  have last : ((b.toNat % 16 * 64 + x.toNat % 64) * 64 + y.toNat % 64) % 64 + 128 =
      y.toNat := by omega
  rw [utf8EncodeChar_three (by omega) (by omega), code, lead, middle, last, UInt8.ofNat_toNat,
    UInt8.ofNat_toNat, UInt8.ofNat_toNat]

theorem encode_code_four (low : 0xF0 ≤ b.toNat) (high : b.toNat ≤ 0xF4)
    (second : 0x80 ≤ x.toNat ∧ x.toNat ≤ 0xBF) (needed : b.toNat = 0xF0 → 0x90 ≤ x.toNat)
    (inRange : b.toNat = 0xF4 → x.toNat ≤ 0x8F) (third : 0x80 ≤ y.toNat ∧ y.toNat ≤ 0xBF)
    (fourth : 0x80 ≤ z.toNat ∧ z.toNat ≤ 0xBF) :
    String.utf8EncodeChar (Char.ofNat
      (((b.toNat % 8 * 64 + x.toNat % 64) * 64 + y.toNat % 64) * 64 + z.toNat % 64)) =
      [b, x, y, z] := by
  have code := toNat_charOfNat
    (n := ((b.toNat % 8 * 64 + x.toNat % 64) * 64 + y.toNat % 64) * 64 + z.toNat % 64) (by omega)
  have lead : (((b.toNat % 8 * 64 + x.toNat % 64) * 64 + y.toNat % 64) * 64 + z.toNat % 64) /
      262144 % 8 + 240 = b.toNat := by omega
  have upper : (((b.toNat % 8 * 64 + x.toNat % 64) * 64 + y.toNat % 64) * 64 + z.toNat % 64) /
      4096 % 64 + 128 = x.toNat := by omega
  have lower : (((b.toNat % 8 * 64 + x.toNat % 64) * 64 + y.toNat % 64) * 64 + z.toNat % 64) /
      64 % 64 + 128 = y.toNat := by omega
  have last : (((b.toNat % 8 * 64 + x.toNat % 64) * 64 + y.toNat % 64) * 64 + z.toNat % 64) %
      64 + 128 = z.toNat := by omega
  rw [utf8EncodeChar_four (by omega), code, lead, upper, lower, last, UInt8.ofNat_toNat,
    UInt8.ofNat_toNat, UInt8.ofNat_toNat, UInt8.ofNat_toNat]

end

/-- Whatever bytes complete a character, it is encoded as the bytes seen so far and then
these. -/
def Completes : (missing bits : Nat) → (low high : UInt8) → (seen : List UInt8) → Prop
  | 0, bits, low, high, seen => ∀ b, low.toNat ≤ b.toNat → b.toNat ≤ high.toNat →
      String.utf8EncodeChar (Char.ofNat (bits * 64 + b.toNat % 64)) = seen ++ [b]
  | more + 1, bits, low, high, seen => ∀ b, low.toNat ≤ b.toNat → b.toNat ≤ high.toNat →
      Completes more (bits * 64 + b.toNat % 64) 0x80 0xBF (seen ++ [b])

def Unfinished.Spells (u : Unfinished) (seen : List UInt8) : Prop :=
  Completes u.missing u.bits u.low u.high seen

/-- What a step makes of the bytes seen since the last character. -/
inductive Spelled (seen : List UInt8) : Step → Prop
  | char {c : Char} (h : String.utf8EncodeChar c = seen) : Spelled seen ([some c], none)
  | unfinished {u : Unfinished} (h : u.Spells seen) : Spelled seen ([], some u)
  | gap {chars : List (Option Char)} {state : Option Unfinished} (h : none ∈ chars) :
      Spelled seen (chars, state)

theorem spelled_first (b : UInt8) : Spelled [b] (first b) := by
  rcases Nat.lt_or_ge b.toNat 0x80 with ascii | beyond
  · have code : (Char.ofNat b.toNat).toNat = b.toNat := toNat_charOfNat (by omega)
    rw [first_one ascii]
    refine .char ?_
    rw [utf8EncodeChar_one (by omega), code, UInt8.ofNat_toNat]
  by_cases stray : b.toNat < 0xC2 ∨ 0xF4 < b.toNat
  · rw [first_stray (stray.imp_left (And.intro beyond))]
    exact .gap List.mem_cons_self
  rcases Nat.lt_or_ge b.toNat 0xE0 with two | notTwo
  · rw [first_two (by omega) two]
    refine .unfinished fun x above below => ?_
    exact encode_code_two (by omega) two ⟨above, below⟩
  rcases Nat.lt_or_ge b.toNat 0xF0 with three | four
  · rw [first_three notTwo three]
    refine .unfinished fun x above below y above' below' => ?_
    obtain ⟨second, needed, noSurrogate⟩ := Unfinished.afterThree_admits_iff.1 ⟨above, below⟩
    exact encode_code_three notTwo three second needed noSurrogate ⟨above', below'⟩
  · rw [first_four four (by omega)]
    refine .unfinished fun x above below y above' below' z above'' below'' => ?_
    obtain ⟨second, needed, inRange⟩ := Unfinished.afterFour_admits_iff.1 ⟨above, below⟩
    exact encode_code_four four (by omega) second needed inRange ⟨above', below'⟩
      ⟨above'', below''⟩

theorem Unfinished.Spells.spelled_step {u : Unfinished} {seen : List UInt8} (h : u.Spells seen)
    (b : UInt8) : Spelled (seen ++ [b]) (step (some u) b) := by
  rw [step]
  split
  · rename_i admitted
    obtain ⟨bits, missing, low, high⟩ := u
    cases missing with
    | zero => exact .char (h b admitted.1 admitted.2)
    | succ more => exact .unfinished (h b admitted.1 admitted.2)
  · exact .gap List.mem_cons_self

/-- The bytes seen since the last character. -/
def Seen (state : Option Unfinished) (bytes : List UInt8) : Prop :=
  match state with
  | none => bytes = []
  | some u => u.Spells bytes

theorem Seen.spelled_step {state : Option Unfinished} {seen : List UInt8} (h : Seen state seen)
    (b : UInt8) : Spelled (seen ++ [b]) (step state b) := by
  cases state with
  | none =>
      obtain rfl : seen = [] := h
      exact spelled_first b
  | some u => exact Unfinished.Spells.spelled_step h b

/-- What is read without a gap is encoded as the bytes already seen, then those read. -/
theorem encode_of_decodeFrom {state : Option Unfinished} {seen bytes : List UInt8}
    (h : Seen state seen) {cs : List Char} (read : decodeFrom state bytes = cs.map some) :
    encode cs = seen ++ bytes := by
  have noGap : none ∉ cs.map some := by simp
  induction bytes generalizing state seen cs with
  | nil =>
      cases state with
      | none =>
          obtain rfl : seen = [] := h
          obtain rfl : cs = [] := List.map_eq_nil_iff.1 read.symm
          rfl
      | some u => exact absurd (read ▸ List.mem_cons_self) noGap
  | cons b rest ih =>
      have spelled := h.spelled_step b
      have split : seen ++ b :: rest = seen ++ [b] ++ rest := by simp
      rw [decodeFrom] at read
      rw [split]
      generalize step state b = next at spelled read
      cases spelled with
      | @char c encoded =>
          obtain ⟨d, ds, rfl, same, later⟩ := List.map_eq_cons_iff.1 read.symm
          obtain rfl := Option.some.inj same
          have nothing : Seen none [] := rfl
          have tail : encode ds = [] ++ rest := ih nothing later.symm (by simp)
          rw [← encoded, encode, List.flatMap_cons, ← encode, tail]
          rfl
      | @unfinished u spells =>
          have spelling : Seen (some u) (seen ++ [b]) := spells
          exact ih spelling read noGap
      | gap mem => exact absurd (read ▸ List.mem_append_left _ mem) noGap

theorem eq_map_some_of_mapM_id {cs : List (Option Char)} {ds : List Char}
    (h : cs.mapM id = some ds) : cs = ds.map some := by
  induction cs generalizing ds with
  | nil =>
      obtain rfl := Option.some.inj h
      rfl
  | cons c cs ih =>
      rw [List.mapM_cons] at h
      obtain ⟨d, rfl, rest⟩ := Option.bind_eq_some_iff.1 h
      obtain ⟨ds, read, same⟩ := Option.bind_eq_some_iff.1 rest
      obtain rfl := Option.some.inj same
      rw [ih read]
      rfl

theorem encode_of_decode? {bytes : List UInt8} {cs : List Char} (h : decode? bytes = some cs) :
    encode cs = bytes := by
  have nothing : Seen none [] := rfl
  exact encode_of_decodeFrom nothing (eq_map_some_of_mapM_id h)

theorem isValid_iff {bytes : List UInt8} : IsValid bytes ↔ ∃ cs, bytes = encode cs := by
  constructor
  · intro valid
    obtain ⟨cs, read⟩ := Option.isSome_iff_exists.1 valid
    exact ⟨cs, (encode_of_decode? read).symm⟩
  · rintro ⟨cs, rfl⟩
    exact Option.isSome_of_eq_some (decode?_encode cs)

/-- Bytes below 128 are characters by themselves. -/
theorem encode_map_ofNat {bytes : List UInt8} (ascii : ∀ b ∈ bytes, b < 128) :
    encode (bytes.map fun b => Char.ofNat b.toNat) = bytes := by
  induction bytes with
  | nil => rfl
  | cons b rest ih =>
      obtain ⟨small, later⟩ := List.forall_mem_cons.1 ascii
      have bound : b.toNat < 128 := UInt8.lt_iff_toNat_lt.1 small
      have code : (Char.ofNat b.toNat).toNat = b.toNat := toNat_charOfNat (.inl (by omega))
      have single : String.utf8EncodeChar (Char.ofNat b.toNat) = [b] := by
        rw [utf8EncodeChar_one (by omega), code, UInt8.ofNat_toNat]
      rw [List.map_cons, encode, List.flatMap_cons, single, ← encode, ih later]
      rfl

end StackText.Utf8
