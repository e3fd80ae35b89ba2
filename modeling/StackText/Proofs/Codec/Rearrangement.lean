import StackText.Proofs.Codec.Modes
import StackText.Proofs.Codec.RoundTrip
import StackText.Proofs.Program.Objects
import StackText.Proofs.Value.Rearrangement

/-!
# The cost of a value does not depend on the order of entries

Exchanging entries rearranges the program of a value (`Rearranged.program_perm`) and leaves
its need as it is (`Rearranged.need_eq`). So equal values have programs with the same
opcodes, each as often, and texts of the same length that are read on the same stacks.
-/
namespace StackText
namespace Value

theorem appendItems_eq_flatMap (items : List Value) :
    appendItems items = items.flatMap fun v => v.program ++ [.arrAdd] := by
  induction items with
  | nil => rfl
  | cons v rest ih =>
      rw [appendItems, ih, List.flatMap_cons, List.append_assoc]
      rfl

/-- What a value with parts needs, where each part is built so many places above it. -/
def needAbove (places : Nat) (needs : List Nat) : Nat :=
  if needs.isEmpty then 1 else places + needs.foldr max 0

theorem needAbove_perm {needs others : List Nat} (h : needs.Perm others) (places : Nat) :
    needAbove places needs = needAbove places others := by
  rw [needAbove, needAbove, h.isEmpty_eq, h.foldr_eq]

theorem need_object (entries : Entries Bytes Value) :
    (object entries).need = needAbove 2 (entries.map (·.2.need)) := by
  have greatest : greatestEntryNeed entries = (entries.map (·.2.need)).foldr max 0 := by
    induction entries with
    | nil => rfl
    | cons e rest ih => rw [greatestEntryNeed, ih, List.map_cons, List.foldr_cons]
  rw [need, greatest, needAbove, List.isEmpty_map]

theorem need_array (items : List Value) :
    (array items).need = needAbove 1 (items.map need) := by
  have greatest : greatestItemNeed items = (items.map need).foldr max 0 := by
    induction items with
    | nil => rfl
    | cons v rest ih => rw [greatestItemNeed, ih, List.map_cons, List.foldr_cons]
  rw [need, greatest, needAbove, List.isEmpty_map]

section
variable {v w : Value}

/-- Exchanged entries stand in the program in their new order, and nothing else moves. -/
theorem Within.program_perm (h : Within Permuted v w) : v.program.Perm w.program := by
  induction h with
  | here permuted =>
      obtain ⟨perm⟩ := permuted
      rw [program, program, setEntries_eq_flatMap, setEntries_eq_flatMap]
      exact (perm.flatMap_right _).cons _
  | entry before key after _ ih =>
      rw [program, program, setEntries_eq_flatMap, setEntries_eq_flatMap, List.flatMap_append,
        List.flatMap_append, List.flatMap_cons, List.flatMap_cons]
      exact ((((ih.append_left _).append_right _).append_right _).append_left _).cons _
  | item before after _ ih =>
      rw [program, program, appendItems_eq_flatMap, appendItems_eq_flatMap, List.flatMap_append,
        List.flatMap_append, List.flatMap_cons, List.flatMap_cons]
      exact (((ih.append_right _).append_right _).append_left _).cons _

theorem Within.need_eq (h : Within Permuted v w) : v.need = w.need := by
  induction h with
  | here permuted =>
      obtain ⟨perm⟩ := permuted
      rw [need_object, need_object]
      exact needAbove_perm (perm.map _) 2
  | entry before key after _ ih =>
      rw [need_object, need_object, List.map_append, List.map_append, List.map_cons,
        List.map_cons, ih]
  | item before after _ ih =>
      rw [need_array, need_array, List.map_append, List.map_append, List.map_cons,
        List.map_cons, ih]

theorem Rearranged.program_perm (h : Rearranged v w) : v.program.Perm w.program := by
  induction h with
  | refl => exact .refl _
  | tail _ step ih => exact ih.trans step.program_perm

theorem Rearranged.need_eq (h : Rearranged v w) : v.need = w.need := by
  induction h with
  | refl => rfl
  | tail _ step ih => exact ih.trans step.need_eq

end

/-- What is read back under any settings, by the room there is. -/
theorem decodeBytes_textFrom_program {v : Value} (unique : v.hasUniqueKeys) (width : Nat)
    (reading : Settings) :
    let room := Machine.effectiveCapacity reading.capacity
    let read := decodeBytes reading (LineWriter.textFrom .ascii width 0 v.program)
    (v.need ≤ room → read = .ok v) ∧
      (room < v.need → ∃ op, read = .error (.run (.trap (.overflow op room)))) := by
  intro room read
  have run : read = (Machine.ofCapacity room).conclude v.program none := by
    have text := decodeBytes_textFrom reading .default width v.program
    rwa [prettify_program] at text
  rw [run]
  exact ⟨conclude_program_of_fits unique, conclude_program_of_short unique⟩

/-- Equal values have the same opcodes in their programs, each equally often. Their texts, in
either mode and with lines of any width, are equally long, and on any stack either both are
read, as equal values, or both overflow. -/
theorem cost_of_equal {v w : Value} (unique : v.hasUniqueKeys) (uniqueOther : w.hasUniqueKeys)
    (equal : (v == w) = true) :
    (∀ op, v.program.count op = w.program.count op) ∧
      ∀ writing : Settings, ∃ text other,
        encodeBytes writing v = .ok text ∧ encodeBytes writing w = .ok other ∧
          text.length = other.length ∧ ∀ reading : Settings,
            (∃ x y, decodeBytes reading text = .ok x ∧ decodeBytes reading other = .ok y ∧
              (x == y) = true) ∨
            ∃ op op', decodeBytes reading text = .error (.run (.trap
                (.overflow op (Machine.effectiveCapacity reading.capacity)))) ∧
              decodeBytes reading other = .error (.run (.trap
                (.overflow op' (Machine.effectiveCapacity reading.capacity)))) := by
  have rearranged := rearranged_of_beq unique equal
  have perm := rearranged.program_perm
  refine ⟨fun op => perm.count_eq op, fun writing => ?_⟩
  refine ⟨_, _, encodeBytes_eq_textFrom writing v, encodeBytes_eq_textFrom writing w, ?_, ?_⟩
  · rw [LineWriter.length_textFrom_start, LineWriter.length_textFrom_start, perm.length_eq]
  · intro reading
    obtain ⟨fits, short⟩ := decodeBytes_textFrom_program unique writing.width reading
    obtain ⟨fits', short'⟩ := decodeBytes_textFrom_program uniqueOther writing.width reading
    rw [← rearranged.need_eq] at fits' short'
    by_cases enough : v.need ≤ Machine.effectiveCapacity reading.capacity
    · exact .inl ⟨v, w, fits enough, fits' enough, equal⟩
    · obtain ⟨op, overflow⟩ := short (Nat.lt_of_not_le enough)
      obtain ⟨op', overflow'⟩ := short' (Nat.lt_of_not_le enough)
      exact .inr ⟨op, op', overflow, overflow'⟩

/-- Two entries exchanged: on lines of five tokens the texts differ, but not in length. -/
theorem cost_of_equal_exchanged :
    let v : Value := .object [([97], .array [.nil]), ([], .uint 6)]
    let w : Value := .object [([], .uint 6), ([97], .array [.nil])]
    v.hasUniqueKeys ∧ w.hasUniqueKeys ∧ (v == w) = true ∧
      (∀ op, v.program.count op = w.program.count op) ∧
      ∃ text other, encodeBytes { width := 5 } v = .ok text ∧
        encodeBytes { width := 5 } w = .ok other ∧ text ≠ other ∧
          text.length = other.length := by
  intro v w
  have unique : v.hasUniqueKeys := by decide
  have uniqueOther : w.hasUniqueKeys := by decide
  have equal : (v == w) = true := by decide
  obtain ⟨counts, texts⟩ := cost_of_equal unique uniqueOther equal
  obtain ⟨text, other, written, writtenOther, length, -⟩ := texts { width := 5 }
  refine ⟨unique, uniqueOther, equal, counts, text, other, written, writtenOther, ?_, length⟩
  rw [encodeBytes_eq_textFrom] at written writtenOther
  rw [← Except.ok.inj written, ← Except.ok.inj writtenOther]
  decide +kernel

end Value
end StackText
