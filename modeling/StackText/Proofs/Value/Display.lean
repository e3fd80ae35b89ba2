import StackText.Proofs.Text.Quoted
import StackText.Proofs.Text.Utf8
import StackText.Proofs.Value.Structure
import StackText.Value.Display

/-!
# Displayed values can be told apart

The text of a value ends before what can follow it inside another text: a comma or a closing
bracket (`Follows`). So a text with more behind it determines the value it begins with, and
what is behind (`text_append_inj`): the first character tells the kinds apart, all but the
two kinds of whole numbers, and those differ in their last one. Only the digits of
floating-point numbers and bytes that are no valid text stay out of this.
-/
namespace StackText

theorem Utf8.decodeLossy_inj {bytes others : List UInt8} (valid : IsValid bytes)
    (validOther : IsValid others) (h : decodeLossy bytes = decodeLossy others) :
    bytes = others := by
  obtain ⟨cs, rfl⟩ := isValid_iff.1 valid
  obtain ⟨ds, rfl⟩ := isValid_iff.1 validOther
  rw [decodeLossy_encode, decodeLossy_encode] at h
  rw [h]

/-- Where two runs of characters end, as long as what follows does not continue them. -/
theorem append_inj_of_ends {p : Char → Bool} {xs ys r s : List Char} (front : ∀ c ∈ xs, p c)
    (frontOther : ∀ c ∈ ys, p c) (ends : ∀ c ∈ r.head?, p c = false)
    (endsOther : ∀ c ∈ s.head?, p c = false) (h : xs ++ r = ys ++ s) : xs = ys ∧ r = s := by
  have stop {t : List Char} (ends : ∀ c ∈ t.head?, p c = false) : t.takeWhile p = [] := by
    cases t with
    | nil => rfl
    | cons c t => rw [List.takeWhile_cons, ends c rfl, if_neg Bool.false_ne_true]
  have taken := congrArg (List.takeWhile p) h
  rw [List.takeWhile_append_of_pos front, List.takeWhile_append_of_pos frontOther, stop ends,
    stop endsOther, List.append_nil, List.append_nil] at taken
  subst taken
  exact ⟨rfl, List.append_cancel_left h⟩

namespace Value

mutual

/-- Whether no floating-point number is in a value, and every string and key in it is valid
text. -/
def isLegible : Value → Bool
  | .float _ => false
  | .str bytes => decide (Utf8.IsValid bytes)
  | .object entries => entriesAreLegible entries
  | .array items => itemsAreLegible items
  | .int _ | .uint _ | .bool _ | .nil => true
  termination_by structural v => v

def entriesAreLegible : List (Bytes × Value) → Bool
  | [] => true
  | (key, v) :: rest => decide (Utf8.IsValid key) && isLegible v && entriesAreLegible rest
  termination_by structural entries => entries

def itemsAreLegible : List Value → Bool
  | [] => true
  | v :: rest => isLegible v && itemsAreLegible rest
  termination_by structural items => items

end

theorem isLegible_object (entries : List (Bytes × Value)) :
    (object entries).isLegible ↔ ∀ e ∈ entries, Utf8.IsValid e.1 ∧ e.2.isLegible := by
  rw [isLegible]
  induction entries with
  | nil => simp [entriesAreLegible]
  | cons e rest ih => simp [entriesAreLegible, ih, and_assoc]

theorem isLegible_array (items : List Value) :
    (array items).isLegible ↔ ∀ v ∈ items, v.isLegible := by
  rw [isLegible]
  induction items with
  | nil => simp [itemsAreLegible]
  | cons v rest ih => simp [itemsAreLegible, ih]

theorem quotedBytes_append_inj {bytes others : Bytes} {r s : List Char}
    (valid : Utf8.IsValid bytes) (validOther : Utf8.IsValid others)
    (h : quotedBytes bytes ++ r = quotedBytes others ++ s) : bytes = others ∧ r = s := by
  obtain ⟨sameChars, same⟩ := Text.quoted_append_inj h
  exact ⟨Utf8.decodeLossy_inj valid validOther sameChars, same⟩

/-- What may stand behind a value: nothing, a comma, or a closing bracket. -/
def Follows (rest : List Char) : Prop :=
  ∀ c ∈ rest.head?, c = ',' ∨ c = ']' ∨ c = '\x7d'

/-- The characters of whole numbers. -/
def isNumeric (c : Char) : Bool := c.isDigit || c = '-' || c = 'u'

theorem Follows.not_numeric {rest : List Char} (h : Follows rest) :
    ∀ c ∈ rest.head?, isNumeric c = false := by
  intro c mem
  rcases h c mem with rfl | rfl | rfl <;> decide

theorem isDigit_or_minus_of_mem_ofInt {n : Int} {c : Char} (mem : c ∈ Decimal.ofInt n) :
    c.isDigit ∨ c = '-' := by
  unfold Decimal.ofInt at mem
  split at mem
  · rcases List.mem_cons.1 mem with minus | digit
    · exact .inr minus
    · exact .inl (Decimal.isDigit_of_mem_digits digit)
  · exact .inl (Decimal.isDigit_of_mem_digits mem)

theorem numeric_int (n : Int64) : ∀ c ∈ (int n).text, isNumeric c := by
  intro c mem
  rw [text] at mem
  rcases isDigit_or_minus_of_mem_ofInt mem with digit | rfl
  · simp [isNumeric, digit]
  · rfl

theorem numeric_uint (n : UInt64) : ∀ c ∈ (uint n).text, isNumeric c := by
  intro c mem
  rw [text, List.mem_append, List.mem_singleton] at mem
  rcases mem with digit | rfl
  · simp [isNumeric, Decimal.isDigit_of_mem_digits digit]
  · rfl

theorem text_int_inj {m n : Int64} (h : (int m).text = (int n).text) : m = n := by
  have read := congrArg Decimal.int? h
  rw [text, text, Decimal.int?_ofInt, Decimal.int?_ofInt] at read
  exact Int64.toInt_inj.1 (Option.some.inj read)

theorem text_uint_inj {m n : UInt64} (h : (uint m).text = (uint n).text) : m = n := by
  rw [text, text] at h
  have read := congrArg Decimal.ofDigits? (List.append_cancel_right h)
  rw [Decimal.ofDigits?_digits, Decimal.ofDigits?_digits] at read
  exact UInt64.toNat_inj.1 (Option.some.inj read)

theorem text_int_ne_text_uint (m : Int64) (n : UInt64) : (int m).text ≠ (uint n).text := by
  intro same
  have mem : 'u' ∈ (int m).text := by
    rw [same, text]
    exact List.mem_append_right _ List.mem_cons_self
  rw [text] at mem
  rcases isDigit_or_minus_of_mem_ofInt mem with digit | minus
  · exact absurd digit (by decide)
  · exact absurd minus (by decide)

/-- The kind of value that a text begins with, as far as its first character shows it. -/
def kindOfFirst (c : Char) : Option Kind :=
  if c.isDigit ∨ c = '-' then some .int
  else if c = '"' then some .str
  else if c = 't' ∨ c = 'f' then some .bool
  else if c = 'n' then some .nil
  else if c = '\x7b' then some .object
  else if c = '[' then some .array
  else none

/-- The kind of a value, but unsigned numbers counted with the signed ones. -/
def shownKind (v : Value) : Kind := if v.kind = .uint then .int else v.kind

theorem exists_text_eq_cons {v : Value} (legible : v.isLegible) :
    ∃ c rest, v.text = c :: rest ∧ kindOfFirst c = some v.shownKind := by
  cases v with
  | int n =>
      rw [text, Decimal.ofInt]
      split
      · exact ⟨'-', _, rfl, rfl⟩
      · obtain ⟨c, cs, digits, digit⟩ := Decimal.exists_digits_eq_cons n.toInt.natAbs
        exact ⟨c, cs, digits, if_pos (.inl digit)⟩
  | uint n =>
      obtain ⟨c, cs, digits, digit⟩ := Decimal.exists_digits_eq_cons n.toNat
      rw [text, digits]
      exact ⟨c, _, rfl, if_pos (.inl digit)⟩
  | float x => cases legible
  | str bytes => exact ⟨'"', _, rfl, rfl⟩
  | bool b => cases b <;> exact ⟨_, _, rfl, rfl⟩
  | nil => exact ⟨'n', _, rfl, rfl⟩
  | object entries => exact ⟨'\x7b', _, rfl, rfl⟩
  | array items => exact ⟨'[', _, rfl, rfl⟩

theorem shownKind_eq_of_text {v w : Value} (legible : v.isLegible) (legibleOther : w.isLegible)
    {r s : List Char} (h : v.text ++ r = w.text ++ s) : v.shownKind = w.shownKind := by
  obtain ⟨c, rest, begins, kind⟩ := exists_text_eq_cons legible
  obtain ⟨d, other, beginsOther, kindOther⟩ := exists_text_eq_cons legibleOther
  rw [begins, beginsOther] at h
  rw [(List.cons.inj h).1] at kind
  exact Option.some.inj (kind.symm.trans kindOther)

/-! Texts between brackets. -/
section
variable {α : Type} {write : α → List Char} {close : Char} {r s : List Char}

theorem commaSeparated_cons (t : List Char) (ts : List (List Char)) :
    commaSeparated (t :: ts) = t ++ ts.flatMap fun u => ',' :: ' ' :: u := by
  induction ts generalizing t with
  | nil => simp [commaSeparated]
  | cons u us ih =>
      rw [commaSeparated, List.intercalate_cons_cons, ← commaSeparated, ih]
      simp

/-- What follows an item up to the bracket may follow a value. -/
theorem follows_items (closes : close = ']' ∨ close = '\x7d') (items : List α)
    (rest : List Char) :
    Follows ((items.flatMap fun x => ',' :: ' ' :: write x) ++ close :: rest) := by
  intro c mem
  cases items with
  | nil =>
      obtain rfl : close = c := Option.some.inj mem
      exact .inr closes
  | cons x items => exact .inl (Option.some.inj mem).symm

theorem items_append_inj (closes : close = ']' ∨ close = '\x7d') {xs ys : List α}
    (each : ∀ x ∈ xs, ∀ y ∈ ys, ∀ r s, Follows r → Follows s →
      write x ++ r = write y ++ s → x = y ∧ r = s)
    (h : (xs.flatMap fun x => ',' :: ' ' :: write x) ++ close :: r =
      (ys.flatMap fun x => ',' :: ' ' :: write x) ++ close :: s) : xs = ys ∧ r = s := by
  have noComma : close ≠ ',' := by
    rcases closes with rfl | rfl <;> decide
  induction xs generalizing ys with
  | nil =>
      cases ys with
      | nil => exact ⟨rfl, (List.cons.inj h).2⟩
      | cons y ys => exact absurd (List.cons.inj h).1 noComma
  | cons x xs ih =>
      cases ys with
      | nil => exact absurd (List.cons.inj h).1.symm noComma
      | cons y ys =>
          simp only [List.flatMap_cons, List.cons_append, List.append_assoc, List.cons.injEq,
            true_and] at h
          obtain ⟨rfl, later⟩ := each x List.mem_cons_self y List.mem_cons_self _ _
            (follows_items closes xs r) (follows_items closes ys s) h
          obtain ⟨rfl, same⟩ := ih (fun x mem y memOther =>
            each x (List.mem_cons_of_mem _ mem) y (List.mem_cons_of_mem _ memOther)) later
          exact ⟨rfl, same⟩

/-- A text between brackets determines its items if the text of each item begins like that of
a value and can be told from what follows. -/
theorem commaSeparated_append_inj (closes : close = ']' ∨ close = '\x7d') {xs ys : List α}
    (begins : ∀ x ∈ xs, ∃ c rest, write x = c :: rest ∧ kindOfFirst c ≠ none)
    (beginsOther : ∀ y ∈ ys, ∃ c rest, write y = c :: rest ∧ kindOfFirst c ≠ none)
    (each : ∀ x ∈ xs, ∀ y ∈ ys, ∀ r s, Follows r → Follows s →
      write x ++ r = write y ++ s → x = y ∧ r = s)
    (h : commaSeparated (xs.map write) ++ close :: r =
      commaSeparated (ys.map write) ++ close :: s) : xs = ys ∧ r = s := by
  have noBegin : kindOfFirst close = none := by
    rcases closes with rfl | rfl <;> rfl
  -- An empty pair of brackets is not the beginning of an item.
  have notEmpty {z : α} {zs : List α} (h : ∃ c rest, write z = c :: rest ∧ kindOfFirst c ≠ none)
      (r s : List Char) : close :: r ≠ commaSeparated ((z :: zs).map write) ++ s := by
    obtain ⟨c, rest, written, known⟩ := h
    rw [List.map_cons, commaSeparated_cons, written]
    intro same
    exact known ((List.cons.inj same).1 ▸ noBegin)
  cases xs with
  | nil =>
      cases ys with
      | nil => exact ⟨rfl, (List.cons.inj h).2⟩
      | cons y ys => exact absurd h (notEmpty (beginsOther y List.mem_cons_self) _ _)
  | cons x xs =>
      cases ys with
      | nil => exact absurd h.symm (notEmpty (begins x List.mem_cons_self) _ _)
      | cons y ys =>
          simp only [List.map_cons, commaSeparated_cons, List.flatMap_map,
            List.append_assoc] at h
          obtain ⟨rfl, later⟩ := each x List.mem_cons_self y List.mem_cons_self _ _
            (follows_items closes xs r) (follows_items closes ys s) h
          obtain ⟨rfl, same⟩ := items_append_inj closes (fun x mem y memOther =>
            each x (List.mem_cons_of_mem _ mem) y (List.mem_cons_of_mem _ memOther)) later
          exact ⟨rfl, same⟩

end

/-- The text of an entry. -/
def entryText (e : Bytes × Value) : List Char := quotedBytes e.1 ++ ':' :: ' ' :: e.2.text

theorem text_object (entries : List (Bytes × Value)) :
    (object entries).text = '\x7b' :: (commaSeparated (entries.map entryText) ++ ['\x7d']) := by
  have texts : entryTexts entries = entries.map entryText := by
    induction entries with
    | nil => rfl
    | cons e rest ih => rw [entryTexts, ih, List.map_cons, entryText]
  rw [text, texts]

theorem text_array (items : List Value) :
    (array items).text = '[' :: (commaSeparated (items.map text) ++ [']']) := by
  have texts : itemTexts items = items.map text := by
    induction items with
    | nil => rfl
    | cons v rest ih => rw [itemTexts, ih, List.map_cons]
  rw [text, texts]

theorem entryText_append_inj {e f : Bytes × Value} {r s : List Char}
    (valid : Utf8.IsValid e.1) (validOther : Utf8.IsValid f.1)
    (value : e.2.text ++ r = f.2.text ++ s → e.2 = f.2 ∧ r = s)
    (h : entryText e ++ r = entryText f ++ s) : e = f ∧ r = s := by
  rw [entryText, entryText, List.append_assoc, List.append_assoc] at h
  obtain ⟨sameKey, behind⟩ := quotedBytes_append_inj valid validOther h
  obtain ⟨sameValue, rest⟩ := value (List.cons.inj (List.cons.inj behind).2).2
  exact ⟨Prod.ext sameKey sameValue, rest⟩

/-- The text of a value tells it from any other and shows where it ends. -/
def TextDetermines (v : Value) : Prop :=
  ∀ {w : Value}, w.isLegible → ∀ {r s : List Char}, Follows r → Follows s →
    v.text ++ r = w.text ++ s → v = w ∧ r = s

theorem text_object_append_inj {entries others : List (Bytes × Value)} {r s : List Char}
    (legible : (object entries).isLegible) (legibleOther : (object others).isLegible)
    (each : ∀ e ∈ entries, TextDetermines e.2)
    (h : (object entries).text ++ r = (object others).text ++ s) :
    entries = others ∧ r = s := by
  have parts := (isLegible_object entries).1 legible
  have otherParts := (isLegible_object others).1 legibleOther
  rw [text_object, text_object, List.cons_append, List.cons_append, List.append_assoc,
    List.append_assoc] at h
  refine commaSeparated_append_inj (.inr rfl) (fun e _ => ⟨'"', _, rfl, nofun⟩)
    (fun f _ => ⟨'"', _, rfl, nofun⟩) ?_ (List.cons.inj h).2
  intro e mem f memOther r s follows followsOther
  obtain ⟨valid, -⟩ := parts e mem
  obtain ⟨validOther, legibleOther⟩ := otherParts f memOther
  exact entryText_append_inj valid validOther (each e mem legibleOther follows followsOther)

theorem text_array_append_inj {items others : List Value} {r s : List Char}
    (legible : (array items).isLegible) (legibleOther : (array others).isLegible)
    (each : ∀ v ∈ items, TextDetermines v)
    (h : (array items).text ++ r = (array others).text ++ s) : items = others ∧ r = s := by
  have parts := (isLegible_array items).1 legible
  have otherParts := (isLegible_array others).1 legibleOther
  rw [text_array, text_array, List.cons_append, List.cons_append, List.append_assoc,
    List.append_assoc] at h
  have begins {v : Value} (legible : v.isLegible) :
      ∃ c rest, v.text = c :: rest ∧ kindOfFirst c ≠ none := by
    obtain ⟨c, rest, written, kind⟩ := exists_text_eq_cons legible
    exact ⟨c, rest, written, kind ▸ nofun⟩
  exact commaSeparated_append_inj (.inl rfl) (fun v mem => begins (parts v mem))
    (fun w mem => begins (otherParts w mem))
    (fun v mem w memOther _ _ => each v mem (otherParts w memOther)) (List.cons.inj h).2

/-- A text determines the value that it begins with, and what stands behind that. -/
theorem text_append_inj {v w : Value} (legible : v.isLegible) (legibleOther : w.isLegible)
    {r s : List Char} (follows : Follows r) (followsOther : Follows s)
    (h : v.text ++ r = w.text ++ s) : v = w ∧ r = s := by
  induction v using ind generalizing w r s with
  | int m =>
      cases w with
      | int n =>
          obtain ⟨texts, rest⟩ := append_inj_of_ends (numeric_int m) (numeric_int n)
            follows.not_numeric followsOther.not_numeric h
          exact ⟨congrArg int (text_int_inj texts), rest⟩
      | uint n =>
          obtain ⟨texts, -⟩ := append_inj_of_ends (numeric_int m) (numeric_uint n)
            follows.not_numeric followsOther.not_numeric h
          exact absurd texts (text_int_ne_text_uint m n)
      | _ => cases shownKind_eq_of_text legible legibleOther h
  | uint m =>
      cases w with
      | int n =>
          obtain ⟨texts, -⟩ := append_inj_of_ends (numeric_uint m) (numeric_int n)
            follows.not_numeric followsOther.not_numeric h
          exact absurd texts.symm (text_int_ne_text_uint n m)
      | uint n =>
          obtain ⟨texts, rest⟩ := append_inj_of_ends (numeric_uint m) (numeric_uint n)
            follows.not_numeric followsOther.not_numeric h
          exact ⟨congrArg uint (text_uint_inj texts), rest⟩
      | _ => cases shownKind_eq_of_text legible legibleOther h
  | float x => cases legible
  | str bytes =>
      cases w with
      | str others =>
          obtain ⟨rfl, rest⟩ := quotedBytes_append_inj (of_decide_eq_true legible)
            (of_decide_eq_true legibleOther) h
          exact ⟨rfl, rest⟩
      | _ => cases shownKind_eq_of_text legible legibleOther h
  | bool b =>
      cases w with
      | bool b' => cases b <;> cases b' <;> simp_all [text]
      | _ => cases shownKind_eq_of_text legible legibleOther h
  | nil =>
      cases w with
      | nil => exact ⟨rfl, List.append_cancel_left h⟩
      | _ => cases shownKind_eq_of_text legible legibleOther h
  | object entries ih =>
      cases w with
      | object others =>
          have parts := (isLegible_object entries).1 legible
          obtain ⟨rfl, rest⟩ := text_object_append_inj legible legibleOther
            (fun e mem => ih e mem (parts e mem).2) h
          exact ⟨rfl, rest⟩
      | _ => cases shownKind_eq_of_text legible legibleOther h
  | array items ih =>
      cases w with
      | array others =>
          have parts := (isLegible_array items).1 legible
          obtain ⟨rfl, rest⟩ := text_array_append_inj legible legibleOther
            (fun v mem => ih v mem (parts v mem)) h
          exact ⟨rfl, rest⟩
      | _ => cases shownKind_eq_of_text legible legibleOther h

/-- Two values without floating-point numbers, whose strings and keys are valid text, are
shown by the same text only if they are the same: of the same kinds, with the same payloads,
items and entries, in the same order. -/
theorem display_eq_iff {v w : Value} (legible : v.isLegible) (legibleOther : w.isLegible) :
    v.display = w.display ↔ v = w := by
  constructor
  · intro same
    have texts : v.text = w.text := String.ofList_inj.1 same
    have none : Follows [] := nofun
    exact (text_append_inj legible legibleOther none none (congrArg (· ++ []) texts)).1
  · exact congrArg display

/-- A key that spells the end of one entry and the beginning of the next does not pass for two
entries, nor an unsigned number for a signed one. -/
theorem display_eq_iff_confusable :
    let key : Bytes := [97, 34, 58, 32, 110, 105, 108, 44, 32, 34, 98]
    let one : Value := .object [(key, .array [.int 2])]
    let two : Value := .object [([97], .nil), ([98], .array [.int 2])]
    let unsigned : Value := .object [([97], .nil), ([98], .array [.uint 2])]
    Utf8.decodeLossy key = ['a', '"', ':', ' ', 'n', 'i', 'l', ',', ' ', '"', 'b'] ∧
      one.isLegible ∧ two.isLegible ∧ unsigned.isLegible ∧
        one.display ≠ two.display ∧ two.display ≠ unsigned.display := by
  intro key one two unsigned
  have legibleOne : one.isLegible := by decide
  have legibleTwo : two.isLegible := by decide
  have legibleUnsigned : unsigned.isLegible := by decide
  refine ⟨by decide, legibleOne, legibleTwo, legibleUnsigned, ?_, ?_⟩
  · rw [ne_eq, display_eq_iff legibleOne legibleTwo]
    simp [one, two]
  · rw [ne_eq, display_eq_iff legibleTwo legibleUnsigned]
    simp [two, unsigned]

end Value
end StackText
