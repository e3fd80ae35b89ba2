import Mathlib.Data.List.Induction
import StackText.Entries

/-!
# Entries that are set one after another

Pairs whose keys are new, each to the entries and to the other pairs, are stored in
their own order behind the entries. So the entries of a map with unique keys come
back from being set one by one. Of pairs with any keys, each key stays where it came first
(`keys_ofPairs`), with what came last (`lookup_ofPairs`).
-/
namespace StackText
namespace Entries
variable {κ α : Type} [DecidableEq κ]

theorem set_of_not_mem {key : κ} {entries : Entries κ α} (h : key ∉ keys entries) (value : α) :
    set key value entries = entries ++ [(key, value)] := by
  induction entries with
  | nil => rfl
  | cons e rest ih =>
      simp only [keys, List.map_cons, List.mem_cons, not_or] at h
      rw [set, if_neg (Ne.symm h.1), ih h.2]
      rfl

theorem mem_of_mem_set {key : κ} {value : α} {entries : Entries κ α} {e : κ × α}
    (h : e ∈ set key value entries) : e = (key, value) ∨ e ∈ entries := by
  induction entries with
  | nil => exact .inl (List.mem_singleton.1 h)
  | cons first rest ih => grind [set]

/-- Setting pairs with keys of their own appends them. -/
theorem setAll_of_nodup (entries : Entries κ α) {pairs : List (κ × α)}
    (h : (keys (entries ++ pairs)).Nodup) : setAll entries pairs = entries ++ pairs := by
  induction pairs generalizing entries with
  | nil => exact (List.append_nil entries).symm
  | cons p pairs ih =>
      have absent : p.1 ∉ keys entries := by
        intro mem
        rw [keys, List.map_append, List.nodup_append] at h
        exact h.2.2 p.1 mem p.1 List.mem_cons_self rfl
      have split : entries ++ p :: pairs = entries ++ [p] ++ pairs := by simp
      rw [split] at h ⊢
      rw [← ih (entries ++ [p]) h, ← set_of_not_mem absent p.2]
      rfl

section
variable (pairs : List (κ × α))

theorem ofPairs_append (pairs : List (κ × α)) (p : κ × α) :
    ofPairs (pairs ++ [p]) = set p.1 p.2 (ofPairs pairs) :=
  List.foldl_append

theorem keys_ofPairs [beq : BEq κ] [LawfulBEq κ] :
    keys (ofPairs pairs) = (pairs.map (·.1)).eraseDups := by
  induction pairs using List.reverseRecOn with
  | nil => rfl
  | append_singleton pairs p ih =>
      rw [ofPairs_append, keys_set, ih, List.map_append, List.map_singleton, List.eraseDups_append]
      by_cases known : p.1 ∈ pairs.map (·.1)
      · have contained : ¬ (pairs.map (·.1)).contains p.1 = false := by
          rw [List.contains_iff_mem.2 known]
          exact nofun
        rw [if_pos (List.mem_eraseDups.2 known), List.cons_removeAll, if_neg contained]
        exact (List.append_nil _).symm
      · rw [if_neg fun mem => known (List.mem_eraseDups.1 mem), List.cons_removeAll,
          if_pos (Bool.eq_false_iff.2 fun mem => known (List.contains_iff_mem.1 mem))]
        rfl

theorem nodup_keys_ofPairs : (keys (ofPairs pairs)).Nodup := by
  induction pairs using List.reverseRecOn with
  | nil => exact .nil
  | append_singleton pairs p ih =>
      rw [ofPairs_append]
      exact nodup_keys_set p.1 p.2 ih

theorem lookup_ofPairs [beq : BEq κ] [LawfulBEq κ] (key : κ) :
    (ofPairs pairs).lookup key = (pairs.filter (·.1 = key)).getLast?.map (·.2) := by
  -- Setting compares keys by their decided equality, and no other lawful one differs.
  obtain rfl : beq = instBEqOfDecidableEq := lawful_beq_subsingleton _ _
  induction pairs using List.reverseRecOn with
  | nil => rfl
  | append_singleton pairs p ih =>
      rw [ofPairs_append, lookup_set, ih, List.filter_append, List.getLast?_append]
      by_cases same : key = p.1
      · rw [if_pos same]
        simp [same]
      · rw [if_neg same]
        simp [Ne.symm same]

theorem mem_of_mem_ofPairs {e : κ × α} (h : e ∈ ofPairs pairs) : e ∈ pairs := by
  induction pairs using List.reverseRecOn with
  | nil => exact h
  | append_singleton pairs p ih =>
      rw [ofPairs_append] at h
      rcases mem_of_mem_set h with rfl | before
      · exact List.mem_append_right pairs List.mem_cons_self
      · exact List.mem_append_left [p] (ih before)

end

end Entries
end StackText
