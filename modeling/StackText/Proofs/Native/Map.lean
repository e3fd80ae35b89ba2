import StackText.Native.Map
import StackText.Proofs.Entries

/-!
# Maps rebuilt from their entries

A map is what results from inserting its own entries, in their order, into an empty one.
Nothing is merged and nothing moves, since every key is new and, in a sorted map, behind
those already there. Pairs in any other order make up a map too, as long as no key comes
twice: an unordered map lists them as they come, a sorted one rearranges them
(`ofPairs_perm`).
-/
namespace StackText

theorem Entries.map_eq_self {κ α : Type} {f : α → α} {entries : Entries κ α}
    (h : ∀ e ∈ entries, f e.2 = e.2) : entries.map (fun e => (e.1, f e.2)) = entries := by
  have same : ∀ e ∈ entries, (e.1, f e.2) = id e := fun e mem => Prod.ext rfl (h e mem)
  rw [List.map_congr_left same, List.map_id]

namespace SortedMap
variable {α β : Type}

theorem ext {m n : SortedMap α} (h : m.entries = n.entries) : m = n := by
  cases m
  cases n
  congr

theorem nodup_keys (m : SortedMap α) : m.entries.keys.Nodup :=
  List.pairwise_map.2 (m.sorted.imp String.ne_of_lt)

/-- Changes what is stored, under the same keys. -/
def map (f : α → β) (m : SortedMap α) : SortedMap β :=
  ⟨m.entries.map fun e => (e.1, f e.2), List.pairwise_map.2 m.sorted⟩

theorem insertEntry_of_lt {key : String} {entries : Entries String α}
    (h : ∀ e ∈ entries, e.1 < key) (value : α) :
    insertEntry key value entries = entries ++ [(key, value)] := by
  induction entries with
  | nil => rfl
  | cons first rest ih =>
      obtain ⟨behind, later⟩ := List.forall_mem_cons.1 h
      have notBefore : ¬ key < first.1 := String.lt_asymm behind
      have notSame : first.1 ≠ key := fun same => String.lt_irrefl _ (same ▸ behind)
      rw [insertEntry, if_neg notBefore, if_neg notSame, ih later]
      rfl

/-- Pairs in order of their keys, behind those of a map, are inserted at its end. -/
theorem entries_foldl_insert {pairs : Entries String α} {m : SortedMap α}
    (sorted : (m.entries ++ pairs).Pairwise fun a b => a.1 < b.1) :
    (pairs.foldl (fun m p => m.insert p.1 p.2) m).entries = m.entries ++ pairs := by
  induction pairs generalizing m with
  | nil => exact (List.append_nil _).symm
  | cons p pairs ih =>
      have behind : ∀ e ∈ m.entries, e.1 < p.1 := fun e mem =>
        (List.pairwise_append.1 sorted).2.2 e mem p List.mem_cons_self
      have last : (m.insert p.1 p.2).entries = m.entries ++ [p] := insertEntry_of_lt behind p.2
      have split : m.entries ++ p :: pairs = m.entries ++ [p] ++ pairs := by simp
      rw [split, ← last] at sorted ⊢
      exact ih sorted

theorem ofPairs_entries (m : SortedMap α) : ofPairs m.entries = m :=
  ext (entries_foldl_insert m.sorted)

theorem insertEntry_perm {key : String} {entries : Entries String α} (absent : key ∉ entries.keys)
    (value : α) : (insertEntry key value entries).Perm ((key, value) :: entries) := by
  induction entries with
  | nil => exact .refl _
  | cons first rest ih =>
      rw [Entries.keys, List.map_cons, List.mem_cons, not_or] at absent
      rw [insertEntry, if_neg (Ne.symm absent.1)]
      split
      · exact .refl _
      · exact ((ih absent.2).cons first).trans (.swap _ _ _)

theorem foldl_insert_perm {pairs : Entries String α} {m : SortedMap α}
    (nodup : (Entries.keys (m.entries ++ pairs)).Nodup) :
    (pairs.foldl (fun m p => m.insert p.1 p.2) m).entries.Perm (m.entries ++ pairs) := by
  induction pairs generalizing m with
  | nil => rw [List.append_nil]; exact .refl _
  | cons p pairs ih =>
      have moved : (m.entries ++ p :: pairs).Perm (p :: (m.entries ++ pairs)) := List.perm_middle
      have keys : (Entries.keys (p :: (m.entries ++ pairs))).Nodup :=
        (moved.map _).nodup_iff.1 nodup
      have absent : p.1 ∉ m.entries.keys := fun mem =>
        (List.nodup_cons.1 keys).1 (List.map_append ▸ List.mem_append_left _ mem)
      have inserted : (m.insert p.1 p.2).entries.Perm (p :: m.entries) :=
        insertEntry_perm absent p.2
      have later := inserted.append_right pairs
      exact (ih ((later.map _).nodup_iff.2 keys)).trans (later.trans moved.symm)

/-- Pairs with keys of their own are the entries of their map, put in order. -/
theorem ofPairs_perm {pairs : Entries String α} (nodup : pairs.keys.Nodup) :
    (ofPairs pairs).entries.Perm pairs :=
  foldl_insert_perm (m := ⟨[], .nil⟩) nodup

theorem map_eq_self {f : α → α} {m : SortedMap α} (h : ∀ e ∈ m.entries, f e.2 = e.2) :
    m.map f = m :=
  ext (Entries.map_eq_self h)

end SortedMap

namespace UnorderedMap
variable {α β : Type}

theorem ext {m n : UnorderedMap α} (h : m.entries = n.entries) : m = n := by
  cases m
  cases n
  congr

/-- Changes what is stored, under the same keys. -/
def map (f : α → β) (m : UnorderedMap α) : UnorderedMap β :=
  ⟨m.entries.map fun e => (e.1, f e.2), by
    rw [Entries.keys, List.map_map]
    exact m.nodup_keys⟩

theorem entries_foldl_insert (pairs : Entries String α) (m : UnorderedMap α) :
    (pairs.foldl (fun m p => m.insert p.1 p.2) m).entries = Entries.setAll m.entries pairs := by
  induction pairs generalizing m with
  | nil => rfl
  | cons p pairs ih => exact ih _

theorem entries_ofPairs {pairs : Entries String α} (nodup : pairs.keys.Nodup) :
    (ofPairs pairs).entries = pairs :=
  (entries_foldl_insert pairs ⟨[], .nil⟩).trans (Entries.setAll_of_nodup [] nodup)

theorem ofPairs_entries (m : UnorderedMap α) : ofPairs m.entries = m :=
  ext (entries_ofPairs m.nodup_keys)

theorem map_eq_self {f : α → α} {m : UnorderedMap α} (h : ∀ e ∈ m.entries, f e.2 = e.2) :
    m.map f = m :=
  ext (Entries.map_eq_self h)

end UnorderedMap
end StackText
