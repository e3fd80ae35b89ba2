/-!
# Decimal notation of integers

`Decimal.digits` writes a natural number without leading zeros, and
`Decimal.ofInt` an integer with a minus sign in front where it is negative. The
readers take a non-empty run of ASCII digits, leading zeros included, and an
optional sign: `Decimal.nat?` only a plus, `Decimal.int?` either one.
-/
namespace StackText.Decimal

/-- A natural number in decimal, without leading zeros. -/
def digits (n : Nat) : List Char := Nat.toDigits 10 n

def ofInt (n : Int) : List Char :=
  if n < 0 then '-' :: digits n.natAbs else digits n.natAbs

/-- Reads a non-empty run of digits. -/
def ofDigits? (cs : List Char) : Option Nat :=
  if cs ≠ [] ∧ cs.all Char.isDigit then some (Nat.ofDigitChars 10 cs 0) else none

/-- Reads digits with an optional plus sign. -/
def nat? : List Char → Option Nat
  | '+' :: rest => ofDigits? rest
  | cs => ofDigits? cs

/-- Reads digits with an optional sign. -/
def int? : List Char → Option Int
  | '-' :: rest => (ofDigits? rest).map fun n => -(n : Int)
  | cs => (nat? cs).map Int.ofNat

theorem digits_ne_nil (n : Nat) : digits n ≠ [] := Nat.toDigits_ne_nil

theorem isDigit_of_mem_digits {n : Nat} {c : Char} (h : c ∈ digits n) : c.isDigit :=
  Nat.isDigit_of_mem_toDigits (by decide) (by decide) h

@[simp] theorem ofDigits?_digits (n : Nat) : ofDigits? (digits n) = some n := by
  have digitsOnly : (digits n).all Char.isDigit := by
    simpa using fun c h => isDigit_of_mem_digits h
  rw [ofDigits?, if_pos ⟨digits_ne_nil n, digitsOnly⟩]
  exact congrArg some Nat.ofDigitChars_ten_toDigits

theorem exists_digits_eq_cons (n : Nat) : ∃ c cs, digits n = c :: cs ∧ c.isDigit := by
  obtain ⟨c, cs, written⟩ := List.exists_cons_of_ne_nil (digits_ne_nil n)
  exact ⟨c, cs, written, isDigit_of_mem_digits (written ▸ List.mem_cons_self)⟩

/-- Digits do not begin with a sign. -/
theorem nat?_digits (n : Nat) : nat? (digits n) = some n := by
  obtain ⟨c, cs, written, digit⟩ := exists_digits_eq_cons n
  have noPlus : c ≠ '+' := fun plus => absurd (plus ▸ digit) (by decide)
  have read := ofDigits?_digits n
  rw [written] at read ⊢
  unfold nat?
  split
  · rename_i same
    exact absurd (List.cons.inj same).1 noPlus
  · exact read

theorem int?_ofInt (n : Int) : int? (ofInt n) = some n := by
  unfold ofInt
  split
  · have magnitude : -(n.natAbs : Int) = n := by omega
    show (ofDigits? (digits n.natAbs)).map (fun m => -(m : Int)) = some n
    rw [ofDigits?_digits]
    exact congrArg some magnitude
  · have magnitude : (n.natAbs : Int) = n := by omega
    obtain ⟨c, cs, written, digit⟩ := exists_digits_eq_cons n.natAbs
    have noMinus : c ≠ '-' := fun minus => absurd (minus ▸ digit) (by decide)
    have read := nat?_digits n.natAbs
    rw [written] at read ⊢
    unfold int?
    split
    · rename_i same
      exact absurd (List.cons.inj same).1 noMinus
    · rw [read]
      exact congrArg some magnitude

end StackText.Decimal
