import StackText.Proofs.Value.Rearrangement

/-!
# What equality of values sees

Among values with unique keys equality is an equivalence. It compares objects by what they
store under each key, and does not see the order of entries at any depth. It sees every
other change, even of a single part (`Altered`): another bit pattern of a number, another
string or key, two items of an array exchanged, or a part of another kind.
-/
namespace StackText

/-- Lists that are equal but for one place are related there. -/
theorem rel_of_forall₂_replace {α : Type} {R : α → α → Prop} {before after rest : List α} {x y : α}
    (h : List.Forall₂ R (before ++ x :: after) (before ++ y :: rest)) : R x y := by
  induction before with
  | nil => exact (List.forall₂_cons.1 h).1
  | cons _ _ ih => exact ih (List.forall₂_cons.1 h).2

namespace Value

/-- Two values of which one results from the other by a change that shows. -/
inductive Altered : Value → Value → Prop
  | float {x y : Binary64} (h : x.bits ≠ y.bits) : Altered (.float x) (.float y)
  | str {bytes others : Bytes} (h : bytes ≠ others) : Altered (.str bytes) (.str others)
  | key {key other : Bytes} (h : key ≠ other) (before : Entries Bytes Value) (v : Value)
      (after : Entries Bytes Value) :
      Altered (.object (before ++ (key, v) :: after)) (.object (before ++ (other, v) :: after))
  | exchange {v w : Value} (h : (v == w) = false) (before between after : List Value) :
      Altered (.array (before ++ v :: (between ++ w :: after)))
        (.array (before ++ w :: (between ++ v :: after)))
  | kind {v w : Value} (h : v.kind ≠ w.kind) : Altered v w

section
variable {entries others : Entries Bytes Value}

theorem exists_lookup_of_mem_keys {key : Bytes} (mem : key ∈ entries.keys) :
    ∃ v, entries.lookup key = some v := by
  obtain ⟨e, memEntries, rfl⟩ := List.mem_map.1 mem
  exact Option.isSome_iff_exists.1
    (List.lookup_isSome_iff.2 ⟨e, memEntries, beq_self_eq_true e.1⟩)

/-- Objects are equal if they have the same keys, with equal values under them. -/
theorem beq_object_iff_lookup (unique : (object entries).hasUniqueKeys)
    (uniqueOther : (object others).hasUniqueKeys) :
    (object entries == object others) = true ↔
      (∀ key, key ∈ entries.keys ↔ key ∈ others.keys) ∧
        ∀ key v w, entries.lookup key = some v → others.lookup key = some w →
          (v == w) = true := by
  have nodup := ((hasUniqueKeys_object entries).1 unique).1
  have nodupOther := ((hasUniqueKeys_object others).1 uniqueOther).1
  constructor
  · intro equal
    obtain ⟨order, paired, perm⟩ := exists_order_of_beq unique equal
    constructor
    · intro key
      rw [Entries.keys_eq_of_forall₂ (fun _ _ related => related.1) paired]
      exact (perm.map Prod.fst).mem_iff
    · intro key v w found foundOther
      obtain ⟨x, foundSame, equalPart⟩ :=
        ((beq_object_iff _ _).1 equal).2 (key, v) (Entries.mem_of_lookup found)
      rwa [Option.some.inj (foundOther.symm.trans foundSame)]
  · rintro ⟨sameKeys, equalParts⟩
    have perm := (List.perm_ext_iff_of_nodup nodup nodupOther).2 sameKeys
    have length : entries.length = others.length := by
      simpa only [Entries.keys, List.length_map] using perm.length_eq
    refine (beq_object_iff _ _).2 ⟨length, fun e mem => ?_⟩
    obtain ⟨w, found⟩ := exists_lookup_of_mem_keys ((sameKeys e.1).1 (List.mem_map_of_mem mem))
    exact ⟨w, found, equalParts e.1 e.2 w (Entries.lookup_of_mem nodup mem) found⟩

end

theorem not_beq_of_altered {v w : Value} (unique : v.hasUniqueKeys) (h : Altered v w) :
    ¬ (v == w) = true := by
  intro equal
  cases h with
  | float other =>
      exact other (congrArg Binary64.bits (float.inj (eq_of_beq equal nofun nofun)))
  | str other => exact other (str.inj (eq_of_beq equal nofun nofun))
  | @key key other differs before v after =>
      have nodup := ((hasUniqueKeys_object _).1 unique).1
      rw [Entries.keys, List.map_append, List.map_cons, List.nodup_middle, ← List.map_append,
        List.nodup_cons] at nodup
      have absent : ∀ e ∈ before ++ after, key ≠ e.1 := by
        rintro e mem rfl
        exact nodup.1 (show e.1 ∈ _ from List.mem_map_of_mem mem)
      -- So the other object would have to store the key in the changed entry.
      obtain ⟨w, found, -⟩ := ((beq_object_iff _ _).1 equal).2 (key, v)
        (List.mem_append_right before List.mem_cons_self)
      obtain ⟨e, mem, same⟩ := List.lookup_isSome_iff.1 (Option.isSome_of_eq_some found)
      have sameKey : key = e.1 := beq_iff_eq.1 same
      rcases List.mem_append.1 mem with front | rest
      · exact absent e (List.mem_append_left after front) sameKey
      · rcases List.mem_cons.1 rest with rfl | behind
        · exact differs sameKey
        · exact absent e (List.mem_append_right before behind) sameKey
  | exchange differs before between after =>
      have place := rel_of_forall₂_replace ((beq_array_iff _ _).1 equal)
      exact Bool.eq_false_iff.1 differs place
  | kind differs => exact differs (kind_eq_of_beq equal)

/-- A change that shows where it happens shows in every value around it. -/
theorem not_beq_of_within_altered {v w : Value} (unique : v.hasUniqueKeys)
    (uniqueOther : w.hasUniqueKeys) (h : Within Altered v w) : ¬ (v == w) = true := by
  induction h with
  | here altered => exact not_beq_of_altered unique altered
  | @entry v w before key after _ ih =>
      intro equal
      obtain ⟨-, parts⟩ := (hasUniqueKeys_object _).1 unique
      obtain ⟨nodup, otherParts⟩ := (hasUniqueKeys_object _).1 uniqueOther
      have mem : (key, v) ∈ before ++ (key, v) :: after :=
        List.mem_append_right before List.mem_cons_self
      have memOther : (key, w) ∈ before ++ (key, w) :: after :=
        List.mem_append_right before List.mem_cons_self
      obtain ⟨x, found, equalPart⟩ := ((beq_object_iff _ _).1 equal).2 (key, v) mem
      rw [Entries.lookup_of_mem nodup memOther] at found
      obtain rfl := Option.some.inj found
      exact ih (parts _ mem) (otherParts _ memOther) equalPart
  | @item v w before after _ ih =>
      intro equal
      have part := (hasUniqueKeys_array _).1 unique v
        (List.mem_append_right before List.mem_cons_self)
      have otherPart := (hasUniqueKeys_array _).1 uniqueOther w
        (List.mem_append_right before List.mem_cons_self)
      have place := rel_of_forall₂_replace ((beq_array_iff _ _).1 equal)
      exact ih part otherPart place

/-- Among values whose objects store each key once, equality is an equivalence: of two
objects it compares the keys and what is stored under each, it holds of rearranged values and
of no others, and it fails as soon as one number, string, key, pair of items or kind is
another. -/
theorem equal_up_to_order :
    Equivalence (fun a b : { v : Value // v.hasUniqueKeys } => (a.val == b.val) = true) ∧
      (∀ entries others : Entries Bytes Value,
        (object entries).hasUniqueKeys → (object others).hasUniqueKeys →
          ((object entries == object others) = true ↔
            (∀ key, key ∈ entries.keys ↔ key ∈ others.keys) ∧
              ∀ key v w, entries.lookup key = some v → others.lookup key = some w →
                (v == w) = true)) ∧
      ∀ v : Value, v.hasUniqueKeys → ∀ w : Value,
        ((v == w) = true ∧ w.hasUniqueKeys ↔ Rearranged v w) ∧
          (w.hasUniqueKeys → Within Altered v w → (v == w) = false) := by
  refine ⟨⟨?_, ?_, ?_⟩, ?_, ?_⟩
  · exact fun a => beq_self a.property
  · exact fun {a b} equal => beq_symm a.property b.property equal
  · exact fun first second => beq_trans first second
  · exact fun entries others => beq_object_iff_lookup
  · intro v unique w
    refine ⟨beq_iff_rearranged unique, fun uniqueOther altered => ?_⟩
    exact Bool.eq_false_iff.2 (not_beq_of_within_altered unique uniqueOther altered)

/-- Entries that change places inside an array are not seen. Another payload of a NaN there
is. -/
theorem equal_up_to_order_nested :
    let nan : Binary64 := ⟨0x7ff8000000000001⟩
    let v : Value := .array [.object [([97], .float nan), ([98], .nil)]]
    let moved : Value := .array [.object [([98], .nil), ([97], .float nan)]]
    let other : Value := .array [.object [([97], .float .nan), ([98], .nil)]]
    v.hasUniqueKeys ∧ other.hasUniqueKeys ∧ (v == moved) = true ∧ (moved == v) = true ∧
      (v == other) = false := by
  intro nan v moved other
  obtain ⟨equivalence, -, compared⟩ := equal_up_to_order
  have unique : v.hasUniqueKeys := by decide
  have uniqueOther : other.hasUniqueKeys := by decide
  have rearranged : Rearranged v moved :=
    .single (.item [] [] (.here (.entries (.swap _ _ _))))
  have altered : Within Altered v other :=
    .item [] [] (.entry [] [97] [([98], .nil)] (.here (.float (by decide))))
  obtain ⟨equal, uniqueMoved⟩ := (compared v unique moved).1.2 rearranged
  exact ⟨unique, uniqueOther, equal,
    equivalence.symm (x := ⟨v, unique⟩) (y := ⟨moved, uniqueMoved⟩) equal,
    (compared v unique other).2 uniqueOther altered⟩

end Value
end StackText
