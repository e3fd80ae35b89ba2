import Mathlib.Data.List.Basic
import StackText.Text.Quoted

/-!
# Quoted text can be read back

A character in quoted text can be told from what stands behind it: `unescape` reads it off
the front (`unescape_escape`). No escaped character begins with a quote, so the quote that
closes a text is the first one that no backslash belongs to, and a quoted text together
with what follows it determines both (`quoted_append_inj`).
-/
namespace StackText.Text

/-- Reads hexadecimal digits, the letters in lower case. -/
def ofHex (cs : List Char) : Nat :=
  cs.foldl (fun n c => 16 * n + (c.toNat - if c.isDigit then 48 else 87)) 0

/-- Induction on a number by its hexadecimal digits. -/
theorem hexDigits_induction {P : Nat → List Char → Prop} (one : ∀ d < 16, P d [d.digitChar])
    (more : ∀ n, ∀ d < 16, P n (Nat.toDigits 16 n) →
      P (16 * n + d) (Nat.toDigits 16 n ++ [d.digitChar])) (n : Nat) :
    P n (Nat.toDigits 16 n) := by
  induction n using Nat.strongRecOn with
  | ind n ih =>
      by_cases small : n < 16
      · rw [Nat.toDigits_of_lt_base small]
        exact one n small
      · have front := ih (n / 16) (by omega)
        have whole := more (n / 16) (n % 16) (Nat.mod_lt n (by decide)) front
        rwa [Nat.div_add_mod, ← Nat.toDigits_of_base_le (by decide) (Nat.le_of_not_lt small)]
          at whole

theorem ofHex_toDigits (n : Nat) : ofHex (Nat.toDigits 16 n) = n := by
  have one : ∀ d < 16, d.digitChar.toNat - (if d.digitChar.isDigit then 48 else 87) = d := by
    decide
  refine hexDigits_induction (P := fun n cs => ofHex cs = n) (by decide) ?_ n
  intro n d small front
  rw [ofHex, List.foldl_append, ← ofHex, front, List.foldl_cons, List.foldl_nil, one d small]

theorem brace_not_mem_toDigits (n : Nat) : '\x7d' ∉ Nat.toDigits 16 n := by
  have one : ∀ d < 16, '\x7d' ∉ [d.digitChar] := by decide
  refine hexDigits_induction (P := fun _ cs => '\x7d' ∉ cs) one ?_ n
  intro n d small front
  rw [List.mem_append, not_or]
  exact ⟨front, one d small⟩

/-- Reads one character of quoted text, and leaves what stands behind it. There is none in
front of the closing quote. -/
def unescape : List Char → Option (Char × List Char)
  | '\\' :: '0' :: rest => some ('\x00', rest)
  | '\\' :: 't' :: rest => some ('\t', rest)
  | '\\' :: 'n' :: rest => some ('\n', rest)
  | '\\' :: 'r' :: rest => some ('\r', rest)
  | '\\' :: '"' :: rest => some ('"', rest)
  | '\\' :: '\\' :: rest => some ('\\', rest)
  | '\\' :: 'u' :: '\x7b' :: rest =>
      some (Char.ofNat (ofHex (rest.takeWhile (· ≠ '\x7d'))),
        (rest.dropWhile (· ≠ '\x7d')).drop 1)
  | '"' :: _ => none
  | c :: rest => some (c, rest)
  | [] => none

theorem unescape_codePoint (c : Char) (rest : List Char) :
    unescape (codePoint c ++ rest) = some (c, rest) := by
  have digits : ∀ d ∈ Nat.toDigits 16 c.toNat, decide (d ≠ '\x7d') = true := by
    intro d mem
    refine decide_eq_true fun brace => brace_not_mem_toDigits c.toNat (brace ▸ mem)
  have text : codePoint c ++ rest =
      '\\' :: 'u' :: '\x7b' :: (Nat.toDigits 16 c.toNat ++ '\x7d' :: rest) := by
    simp [codePoint]
  have stops : decide ('\x7d' ≠ '\x7d') = false := by decide
  rw [text, unescape, List.takeWhile_append_of_pos digits, List.dropWhile_append_of_pos digits,
    List.takeWhile_cons, List.dropWhile_cons, stops]
  simp [ofHex_toDigits]

theorem unescape_escape (c : Char) (rest : List Char) :
    unescape (escape c ++ rest) = some (c, rest) := by
  unfold escape
  split
  case h_7 =>
    rename_i noQuote noBackslash
    split
    · rw [List.singleton_append]
      unfold unescape
      split <;> simp_all
    · exact unescape_codePoint c rest
  all_goals rfl

theorem escape_append_inj {c d : Char} {r s : List Char} (h : escape c ++ r = escape d ++ s) :
    c = d ∧ r = s := by
  have read := congrArg unescape h
  rw [unescape_escape, unescape_escape] at read
  exact Prod.mk.inj (Option.some.inj read)

/-- No character reads as a closing quote. -/
theorem quote_ne_escape_append (c : Char) (r s : List Char) : '"' :: r ≠ escape c ++ s := by
  intro same
  have read := congrArg unescape same
  rw [unescape_escape] at read
  cases read

theorem escaped_append_inj {cs ds r s : List Char}
    (h : cs.flatMap escape ++ '"' :: r = ds.flatMap escape ++ '"' :: s) : cs = ds ∧ r = s := by
  induction cs generalizing ds with
  | nil =>
      cases ds with
      | nil => exact ⟨rfl, (List.cons.inj h).2⟩
      | cons d ds =>
          rw [List.flatMap_cons, List.append_assoc] at h
          exact absurd h (quote_ne_escape_append d _ _)
  | cons c cs ih =>
      rw [List.flatMap_cons, List.append_assoc] at h
      cases ds with
      | nil => exact absurd h.symm (quote_ne_escape_append c _ _)
      | cons d ds =>
          rw [List.flatMap_cons, List.append_assoc] at h
          obtain ⟨rfl, later⟩ := escape_append_inj h
          obtain ⟨rfl, same⟩ := ih later
          exact ⟨rfl, same⟩

theorem quoted_append_inj {cs ds r s : List Char} (h : quoted cs ++ r = quoted ds ++ s) :
    cs = ds ∧ r = s := by
  apply escaped_append_inj
  simpa [quoted] using h

end StackText.Text
