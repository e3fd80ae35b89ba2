import StackText.Proofs.Codec.Encoding

/-!
# Texts as lines

A text on lines of a positive width is cut at its line breaks into full lines and a last
one that holds what is left. `FullLines` says so from any column on, which is what the
induction over the opcodes needs. Each opcode costs one byte, and each full line that is
not the last costs one more.
-/
namespace StackText

/-- Lines of tokens that are cut at a width, the first behind as many tokens as the column
says. -/
def FullLines (a : Alphabet) (width : Nat) : Nat → List Bytes → Prop
  | _, [] => False
  | column, [last] => ∃ ops : List Opcode, last = ops.map a.token ∧ column + ops.length ≤ width
  | column, line :: next :: rest =>
      (∃ ops : List Opcode, line = ops.map a.token ∧ column + ops.length = width) ∧
        FullLines a width 0 (next :: rest)

namespace FullLines
variable {a : Alphabet} {width column : Nat} {lines : List Bytes}

theorem modifyHead_cons (h : FullLines a width (column + 1) lines) (op : Opcode) :
    FullLines a width column (lines.modifyHead (List.cons (a.token op))) := by
  match lines, h with
  | [_], ⟨ops, rfl, short⟩ =>
      refine ⟨op :: ops, rfl, ?_⟩
      rw [List.length_cons]
      omega
  | _ :: next :: rest, ⟨⟨ops, rfl, full⟩, later⟩ =>
      refine ⟨⟨op :: ops, rfl, ?_⟩, later⟩
      rw [List.length_cons]
      omega

theorem cons_nil (h : FullLines a width 0 lines) : FullLines a width width ([] :: lines) := by
  cases lines with
  | nil => exact h.elim
  | cons line rest => exact ⟨⟨[], rfl, rfl⟩, h⟩

theorem tokens_of_mem_dropLast (h : FullLines a width 0 lines) :
    ∀ line ∈ lines.dropLast, ∃ ops : List Opcode, line = ops.map a.token ∧ ops.length = width := by
  induction lines with
  | nil => exact h.elim
  | cons first rest ih =>
      cases rest with
      | nil =>
          intro line mem
          cases mem
      | cons next rest =>
          obtain ⟨⟨ops, tokens, full⟩, later⟩ := h
          intro line mem
          rcases List.mem_cons.1 mem with rfl | below
          · exact ⟨ops, tokens, (Nat.zero_add _).symm.trans full⟩
          · exact ih later line below

end FullLines

namespace LineWriter
variable {a : Alphabet} {width column : Nat} {ops : List Opcode}

theorem textFrom_zero (a : Alphabet) (column : Nat) (ops : List Opcode) :
    textFrom a 0 column ops = ops.map a.token := by
  induction ops generalizing column with
  | nil => rfl
  | cons op rest ih =>
      rw [textFrom, if_neg (fun h => absurd h.1 (Nat.lt_irrefl 0)), ih, List.map_cons]

/-- No text ends in a line break unless a token is one. -/
theorem getLast?_textFrom (a : Alphabet) (width column : Nat) (ops : List Opcode) :
    (textFrom a width column ops).getLast? = ops.getLast?.map a.token := by
  induction ops generalizing column with
  | nil => rfl
  | cons op rest ih =>
      rw [textFrom]
      split
      · rw [List.getLast?_cons, List.getLast?_cons, ih, Option.getD_map, Option.getD_some,
          List.getLast?_cons, Option.map_some]
      · rw [List.getLast?_cons, ih, Option.getD_map, List.getLast?_cons, Option.map_some]

theorem filter_textFrom (legible : ∀ op ∈ ops, a.token op ≠ newline) (width column : Nat) :
    (textFrom a width column ops).filter (· ≠ newline) = ops.map a.token := by
  induction ops generalizing column with
  | nil => rfl
  | cons op rest ih =>
      obtain ⟨token, later⟩ := List.forall_mem_cons.1 legible
      rw [textFrom, List.map_cons]
      split
      · rw [List.filter_cons_of_neg (by simp), List.filter_cons_of_pos (by simpa using token),
          ih later]
      · rw [List.filter_cons_of_pos (by simpa using token), ih later]

theorem fullLines_textFrom (positive : 0 < width) (within : column ≤ width)
    (legible : ∀ op ∈ ops, a.token op ≠ newline) :
    FullLines a width column ((textFrom a width column ops).splitOn newline) := by
  induction ops generalizing column with
  | nil => exact ⟨[], rfl, within⟩
  | cons op rest ih =>
      obtain ⟨token, later⟩ := List.forall_mem_cons.1 legible
      have token' : (a.token op == newline) = false := beq_false_of_ne token
      rw [textFrom]
      split
      · rename_i full
        obtain ⟨-, rfl⟩ := full
        rw [List.splitOn_cons_eq_if_modifyHead, if_pos (beq_self_eq_true newline),
          List.splitOn_cons_eq_if_modifyHead, token']
        -- The line break leaves an empty rest of the full line, and the token starts the next.
        exact ((ih positive later).modifyHead_cons _).cons_nil
      · rename_i room
        have shorter : column + 1 ≤ width :=
          Nat.lt_of_le_of_ne within fun full => room ⟨positive, full⟩
        rw [List.splitOn_cons_eq_if_modifyHead, token']
        exact (ih shorter later).modifyHead_cons _

/-- The line breaks of a text: one for every time that a token finds its line full. -/
theorem length_textFrom (positive : 0 < width) (within : column ≤ width) (op : Opcode)
    (rest : List Opcode) :
    (textFrom a width column (op :: rest)).length =
      (rest.length + 1) + (column + rest.length) / width := by
  induction rest generalizing column op with
  | nil =>
      rw [textFrom, textFrom]
      split
      · rename_i full
        obtain ⟨-, rfl⟩ := full
        simp [Nat.div_self positive]
      · rename_i room
        have short : column < width :=
          Nat.lt_of_le_of_ne within fun full => room ⟨positive, full⟩
        simp [Nat.div_eq_of_lt short, textFrom]
  | cons next rest ih =>
      rw [textFrom]
      split
      · rename_i full
        obtain ⟨-, rfl⟩ := full
        have started : 1 ≤ column := positive
        have count : column + (rest.length + 1) = (1 + rest.length) + column := by omega
        rw [List.length_cons, List.length_cons, ih started, List.length_cons, count,
          Nat.add_div_right _ positive]
        omega
      · rename_i room
        have shorter : column + 1 ≤ width :=
          Nat.lt_of_le_of_ne within fun full => room ⟨positive, full⟩
        rw [List.length_cons, ih shorter, List.length_cons, Nat.add_assoc column 1,
          Nat.add_comm 1 rest.length]
        omega

/-- How many line breaks so many tokens need. Those that fill the last line need none behind
it. -/
def lineBreaks (width tokens : Nat) : Nat :=
  if width = 0 ∨ tokens = 0 then 0 else (tokens - 1) / width

theorem length_textFrom_start (a : Alphabet) (width : Nat) (ops : List Opcode) :
    (textFrom a width 0 ops).length = ops.length + lineBreaks width ops.length := by
  rcases Nat.eq_zero_or_pos width with rfl | positive
  · rw [textFrom_zero, List.length_map, lineBreaks, if_pos (.inl rfl), Nat.add_zero]
  · cases ops with
    | nil =>
        rw [lineBreaks, if_pos (.inr rfl)]
        rfl
    | cons op rest =>
        have wide : width ≠ 0 := Nat.ne_of_gt positive
        rw [length_textFrom positive (Nat.zero_le width), lineBreaks, List.length_cons,
          if_neg (by omega), Nat.zero_add, Nat.add_sub_cancel]

end LineWriter
end StackText
