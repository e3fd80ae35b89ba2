import StackText.Value.Basic

/-!
# Values as trees

Induction over values (`Value.ind`), which reaches the values inside objects and
arrays, and two measures of a value. `Value.hasUniqueKeys` says that no object in it
stores a key twice, as is so for every value that a machine builds. `Value.need` is
the depth that the stack rises to while the value is built bottom up: the parts of an
array stand one place above it, those of an object two, above its key.
-/
namespace StackText
namespace Value

/-- What holds of a value as soon as it holds of its immediate parts holds of all values. -/
@[elab_as_elim]
theorem ind {motive : Value → Prop} (int : ∀ n, motive (.int n)) (uint : ∀ n, motive (.uint n))
    (float : ∀ x, motive (.float x)) (str : ∀ bytes, motive (.str bytes))
    (bool : ∀ b, motive (.bool b)) (nil : motive .nil)
    (object : ∀ entries, (∀ e ∈ entries, motive e.2) → motive (.object entries))
    (array : ∀ items, (∀ v ∈ items, motive v) → motive (.array items)) (v : Value) : motive v := by
  refine @Value.rec motive (fun entries => ∀ e ∈ entries, motive e.2)
    (fun items => ∀ v ∈ items, motive v) (fun e => motive e.2)
    int uint float str bool nil object array ?_ ?_ ?_ ?_ ?_ v
  · exact fun _ h => nomatch h
  · exact fun e entries first later => List.forall_mem_cons.2 ⟨first, later⟩
  · exact fun _ h => nomatch h
  · exact fun v items first later => List.forall_mem_cons.2 ⟨first, later⟩
  · exact fun _ _ h => h

mutual

/-- Whether every object in a value stores each key once. -/
def hasUniqueKeys : Value → Bool
  | .object entries => decide (Entries.keys entries).Nodup && entriesHaveUniqueKeys entries
  | .array items => itemsHaveUniqueKeys items
  | _ => true
  termination_by structural v => v

def entriesHaveUniqueKeys : List (Bytes × Value) → Bool
  | [] => true
  | (_, v) :: rest => hasUniqueKeys v && entriesHaveUniqueKeys rest
  termination_by structural entries => entries

def itemsHaveUniqueKeys : List Value → Bool
  | [] => true
  | v :: rest => hasUniqueKeys v && itemsHaveUniqueKeys rest
  termination_by structural items => items

end

theorem entriesHaveUniqueKeys_iff (entries : List (Bytes × Value)) :
    entriesHaveUniqueKeys entries ↔ ∀ e ∈ entries, e.2.hasUniqueKeys := by
  induction entries with
  | nil => simp [entriesHaveUniqueKeys]
  | cons e rest ih => simp [entriesHaveUniqueKeys, ih]

theorem itemsHaveUniqueKeys_iff (items : List Value) :
    itemsHaveUniqueKeys items ↔ ∀ v ∈ items, v.hasUniqueKeys := by
  induction items with
  | nil => simp [itemsHaveUniqueKeys]
  | cons v rest ih => simp [itemsHaveUniqueKeys, ih]

@[simp] theorem hasUniqueKeys_object (entries : List (Bytes × Value)) :
    (object entries).hasUniqueKeys ↔
      (Entries.keys entries).Nodup ∧ ∀ e ∈ entries, e.2.hasUniqueKeys := by
  rw [hasUniqueKeys, Bool.and_eq_true, decide_eq_true_eq, entriesHaveUniqueKeys_iff]

@[simp] theorem hasUniqueKeys_array (items : List Value) :
    (array items).hasUniqueKeys ↔ ∀ v ∈ items, v.hasUniqueKeys := by
  rw [hasUniqueKeys, itemsHaveUniqueKeys_iff]

mutual

/-- The greatest depth on the way to a value on an empty stack. A string that is not
empty stands below the integers of its bytes, an array below its items and an object
below a key and the value that belongs to it. -/
def need : Value → Nat
  | .str bytes => if bytes.isEmpty then 1 else 2
  | .object entries => if entries.isEmpty then 1 else 2 + greatestEntryNeed entries
  | .array items => if items.isEmpty then 1 else 1 + greatestItemNeed items
  | _ => 1
  termination_by structural v => v

def greatestEntryNeed : List (Bytes × Value) → Nat
  | [] => 0
  | (_, v) :: rest => max (need v) (greatestEntryNeed rest)
  termination_by structural entries => entries

def greatestItemNeed : List Value → Nat
  | [] => 0
  | v :: rest => max (need v) (greatestItemNeed rest)
  termination_by structural items => items

end

theorem need_pos (v : Value) : 0 < v.need := by
  cases v <;> simp only [need] <;> (try split) <;> omega

theorem need_str_le (bytes : Bytes) : (str bytes).need ≤ 2 := by
  rw [need]
  split <;> omega

/-- One more item lifts the need of an array to one above its own. -/
theorem need_array_append (items : List Value) (v : Value) :
    (array (items ++ [v])).need = max (array items).need (1 + v.need) := by
  have greatest : greatestItemNeed (items ++ [v]) = max (greatestItemNeed items) v.need := by
    induction items with
    | nil => simp [greatestItemNeed]
    | cons w rest ih => rw [List.cons_append, greatestItemNeed, greatestItemNeed, ih, Nat.max_assoc]
  have full : (items ++ [v]).isEmpty = false := by simp
  rw [need, need, greatest, full, if_neg Bool.false_ne_true]
  by_cases empty : items.isEmpty = true
  · obtain rfl := List.isEmpty_iff.1 empty
    rw [if_pos empty, greatestItemNeed]
    omega
  · rw [if_neg empty]
    omega

theorem greatestEntryNeed_set_le (key : Bytes) (v : Value) (entries : List (Bytes × Value)) :
    greatestEntryNeed (Entries.set key v entries) ≤ max (greatestEntryNeed entries) v.need := by
  induction entries with
  | nil => exact Nat.le_of_eq (Nat.max_comm _ _)
  | cons e rest ih =>
      rw [Entries.set]
      split <;> simp only [greatestEntryNeed] <;> omega

/-- Setting a key may lower the need of an object, if the value it replaces was the
greatest, and lifts it at most to two above that of the new value. -/
theorem need_object_set_le (key : Bytes) (v : Value) (entries : List (Bytes × Value)) :
    (object (Entries.set key v entries)).need ≤ max (object entries).need (2 + v.need) := by
  have set := greatestEntryNeed_set_le key v entries
  rw [need, need]
  by_cases empty : entries.isEmpty = true
  · obtain rfl := List.isEmpty_iff.1 empty
    rw [greatestEntryNeed] at set
    rw [if_pos empty]
    split <;> omega
  · rw [if_neg empty]
    split <;> omega

end Value

end StackText
