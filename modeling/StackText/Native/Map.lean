import StackText.Entries

/-!
# Maps with text keys

Two kinds of maps, both with every key once. A `SortedMap` lists its entries in the
order of the keys, character by character. An `UnorderedMap` lists them in some
order that means nothing; two of them hold the same if one lists a permutation of
the other's entries.
-/
namespace StackText

structure SortedMap (α : Type) where
  entries : Entries String α
  sorted : entries.Pairwise fun a b => a.1 < b.1

structure UnorderedMap (α : Type) where
  entries : Entries String α
  nodup_keys : entries.keys.Nodup

namespace SortedMap
variable {α : Type}

/-- Stores a value at the place of its key. -/
def insertEntry (key : String) (value : α) : Entries String α → Entries String α
  | [] => [(key, value)]
  | (k, old) :: rest =>
      if key < k then (key, value) :: (k, old) :: rest
      else if k = key then (key, value) :: rest
      else (k, old) :: insertEntry key value rest

theorem mem_insertEntry {key : String} {value : α} {entries : Entries String α} {e : String × α}
    (h : e ∈ insertEntry key value entries) : e = (key, value) ∨ e ∈ entries := by
  induction entries with
  | nil => exact .inl (List.mem_singleton.1 h)
  | cons first rest ih => grind [insertEntry]

theorem sorted_insertEntry (key : String) (value : α) {entries : Entries String α}
    (h : entries.Pairwise fun a b => a.1 < b.1) :
    (insertEntry key value entries).Pairwise fun a b => a.1 < b.1 := by
  induction entries with
  | nil => exact List.pairwise_singleton _ _
  | cons first rest ih =>
      obtain ⟨k, old⟩ := first
      rw [List.pairwise_cons] at h
      rw [insertEntry]
      split
      · rename_i before
        refine List.pairwise_cons.2 ⟨fun e he => ?_, List.pairwise_cons.2 h⟩
        rcases List.mem_cons.1 he with rfl | later
        · exact before
        · exact String.lt_trans before (h.1 e later)
      · split
        · rename_i same
          exact List.pairwise_cons.2 ⟨fun e he => same ▸ h.1 e he, h.2⟩
        · rename_i notBefore notSame
          refine List.pairwise_cons.2 ⟨fun e he => ?_, ih h.2⟩
          rcases mem_insertEntry he with rfl | later
          · show k < key
            grind
          · exact h.1 e later

def insert (m : SortedMap α) (key : String) (value : α) : SortedMap α :=
  ⟨insertEntry key value m.entries, sorted_insertEntry key value m.sorted⟩

/-- The map of pairs, the last pair with a key winning. -/
def ofPairs (pairs : List (String × α)) : SortedMap α :=
  pairs.foldl (fun m p => m.insert p.1 p.2) ⟨[], .nil⟩

end SortedMap

namespace UnorderedMap
variable {α : Type}

def insert (m : UnorderedMap α) (key : String) (value : α) : UnorderedMap α :=
  ⟨m.entries.set key value, Entries.nodup_keys_set key value m.nodup_keys⟩

/-- The map of pairs, the last pair with a key winning. -/
def ofPairs (pairs : List (String × α)) : UnorderedMap α :=
  pairs.foldl (fun m p => m.insert p.1 p.2) ⟨[], .nil⟩

end UnorderedMap
end StackText
