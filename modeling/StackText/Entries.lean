/-!
# Entries in order of first insertion

Entries are a list of keys, each with what is stored under it. Setting a
key that is present keeps its position and replaces what is stored; setting a new
key appends it. So the keys stand in the order in which they were first set, each
once (`nodup_keys_set`), and look-up gives what was set last (`lookup_set`).
-/
namespace StackText

abbrev Bytes := List UInt8

abbrev Entries (κ α : Type) := List (κ × α)

namespace Entries
variable {κ α : Type} [DecidableEq κ]

/-- Stores a value under a key. -/
def set (key : κ) (value : α) : Entries κ α → Entries κ α
  | [] => [(key, value)]
  | (k, old) :: rest => if k = key then (k, value) :: rest else (k, old) :: set key value rest

/-- Stores pairs one after another. -/
def setAll (entries : Entries κ α) (pairs : List (κ × α)) : Entries κ α :=
  pairs.foldl (fun es p => set p.1 p.2 es) entries

/-- The entries that result from setting pairs one after another. -/
def ofPairs (pairs : List (κ × α)) : Entries κ α := setAll [] pairs

def keys (entries : Entries κ α) : List κ := entries.map (·.1)

theorem keys_set (key : κ) (value : α) (entries : Entries κ α) :
    keys (set key value entries) =
      if key ∈ keys entries then keys entries else keys entries ++ [key] := by
  induction entries with
  | nil => rfl
  | cons e rest ih => grind [set, keys]

theorem nodup_keys_set {entries : Entries κ α} (key : κ) (value : α)
    (h : (keys entries).Nodup) : (keys (set key value entries)).Nodup := by
  rw [keys_set]
  split
  · exact h
  · rename_i absent
    rw [List.nodup_append]
    refine ⟨h, by simp, fun a ha b hb hab => absent ?_⟩
    obtain rfl := List.mem_singleton.1 hb
    exact hab ▸ ha

/-- Setting a key changes what is stored under it and nothing else. -/
theorem lookup_set (key other : κ) (value : α) (entries : Entries κ α) :
    (set key value entries).lookup other =
      if other = key then some value else entries.lookup other := by
  induction entries with
  | nil => grind [set]
  | cons e rest ih => grind [set]

end Entries
end StackText
