import Mathlib.Data.List.Nodup
import Mathlib.Data.List.Perm.Subperm
import Mathlib.Logic.Relation
import StackText.Proofs.Value.Equality

/-!
# Equality is rearrangement

A value is rearranged by putting the entries of one of its objects, at any depth, in another
order, any number of times (`Rearranged`). Among values with unique keys those that are equal
are those that are rearrangements of each other (`beq_iff_rearranged`). So what no single
exchange of entries changes is the same for all equal values.
-/
namespace StackText

theorem exists_forall₂ {α β : Type} {R : α → β → Prop} {xs : List α}
    (h : ∀ x ∈ xs, ∃ y, R x y) : ∃ ys, List.Forall₂ R xs ys := by
  induction xs with
  | nil => exact ⟨[], .nil⟩
  | cons x xs ih =>
      obtain ⟨first, later⟩ := List.forall_mem_cons.1 h
      obtain ⟨y, related⟩ := first
      obtain ⟨ys, rest⟩ := ih later
      exact ⟨y :: ys, .cons related rest⟩

/-- Lists that differ in one place, where they are related. -/
theorem forall₂_replace {α : Type} {R : α → α → Prop} {before after : List α} {x y : α}
    (front : ∀ a ∈ before, R a a) (related : R x y) (behind : ∀ a ∈ after, R a a) :
    List.Forall₂ R (before ++ x :: after) (before ++ y :: after) :=
  List.rel_append (List.forall₂_same.2 front) (.cons related (List.forall₂_same.2 behind))

theorem Entries.mem_of_lookup {κ α : Type} [BEq κ] [LawfulBEq κ] {entries : Entries κ α} {key : κ}
    {value : α} (found : entries.lookup key = some value) : (key, value) ∈ entries := by
  obtain ⟨before, after, split, -⟩ := List.lookup_eq_some_iff.1 found
  rw [split]
  exact List.mem_append_right before List.mem_cons_self

theorem Entries.keys_eq_of_forall₂ {κ α : Type} {R : κ × α → κ × α → Prop}
    {entries others : Entries κ α} (sameKey : ∀ e f, R e f → e.1 = f.1)
    (paired : List.Forall₂ R entries others) : entries.keys = others.keys := by
  have keys : List.Forall₂ (· = ·) entries.keys others.keys :=
    List.rel_map (fun e f related => sameKey e f related) paired
  rwa [List.forall₂_eq_eq_eq] at keys

namespace Value

/-- A change in one place, be it the value itself or a part of it at any depth. -/
inductive Within (Change : Value → Value → Prop) : Value → Value → Prop
  | here {v w : Value} (h : Change v w) : Within Change v w
  | entry {v w : Value} (before : Entries Bytes Value) (key : Bytes)
      (after : Entries Bytes Value) (h : Within Change v w) :
      Within Change (.object (before ++ (key, v) :: after))
        (.object (before ++ (key, w) :: after))
  | item {v w : Value} (before after : List Value) (h : Within Change v w) :
      Within Change (.array (before ++ v :: after)) (.array (before ++ w :: after))

/-- Two objects with the same entries, in any order. -/
inductive Permuted : Value → Value → Prop
  | entries {entries others : Entries Bytes Value} (h : entries.Perm others) :
      Permuted (.object entries) (.object others)

/-- The same value but for the order of entries, in any of its objects at any depth. -/
def Rearranged : Value → Value → Prop := Relation.ReflTransGen (Within Permuted)

section
variable {v w : Value}

theorem kind_eq_of_beq (h : (v == w) = true) : v.kind = w.kind := by
  cases v <;> cases w <;> first | rfl | cases h

/-- Values without parts are equal to themselves only. -/
theorem eq_of_beq (h : (v == w) = true) (noObject : v.kind ≠ .object)
    (noArray : v.kind ≠ .array) : v = w := by
  have same := kind_eq_of_beq h
  cases v <;> cases w <;> first
    | exact absurd rfl noObject
    | exact absurd rfl noArray
    | exact congrArg _ (beq_iff_eq.1 h)
    | rfl
    | cases same

theorem exists_object_of_beq {entries : Entries Bytes Value} (h : (object entries == w) = true) :
    ∃ others, w = object others := by
  have same := kind_eq_of_beq h
  cases w <;> first | exact ⟨_, rfl⟩ | cases same

theorem exists_array_of_beq {items : List Value} (h : (array items == w) = true) :
    ∃ others, w = array others := by
  have same := kind_eq_of_beq h
  cases w <;> first | exact ⟨_, rfl⟩ | cases same

end

section
variable {entries others : Entries Bytes Value}

/-- The entries of an equal object can be put in the order of those that they are equal to. -/
theorem exists_order_of_beq (unique : (object entries).hasUniqueKeys)
    (h : (object entries == object others) = true) :
    ∃ order, List.Forall₂ (fun e f => e.1 = f.1 ∧ (e.2 == f.2) = true) entries order ∧
      order.Perm others := by
  obtain ⟨length, stored⟩ := (beq_object_iff entries others).1 h
  have partner : ∀ e ∈ entries, ∃ f, f ∈ others ∧ e.1 = f.1 ∧ (e.2 == f.2) = true := by
    intro e mem
    obtain ⟨w, found, equal⟩ := stored e mem
    exact ⟨(e.1, w), Entries.mem_of_lookup found, rfl, equal⟩
  obtain ⟨order, paired⟩ := exists_forall₂ partner
  have contained : order ⊆ others := by
    intro f mem
    obtain ⟨e, -, memOthers, -⟩ := exists_mem_of_forall₂ paired.flip mem
    exact memOthers
  have nodup : order.Nodup := by
    have nodupKeys := ((hasUniqueKeys_object entries).1 unique).1
    rw [Entries.keys_eq_of_forall₂ (fun _ _ related => related.2.1) paired] at nodupKeys
    exact nodupKeys.of_map
  refine ⟨order, paired.imp fun _ _ related => related.2, ?_⟩
  exact (List.subperm_of_subset nodup contained).perm_of_length_le
    (Nat.le_of_eq (length.symm.trans paired.length_eq))

theorem Rearranged.entry {v w : Value} (h : Rearranged v w) (before : Entries Bytes Value)
    (key : Bytes) (after : Entries Bytes Value) :
    Rearranged (.object (before ++ (key, v) :: after)) (.object (before ++ (key, w) :: after)) :=
  Relation.ReflTransGen.lift (fun part => object (before ++ (key, part) :: after))
    (fun _ _ step => Within.entry before key after step) v w h

theorem Rearranged.item {v w : Value} (h : Rearranged v w) (before after : List Value) :
    Rearranged (.array (before ++ v :: after)) (.array (before ++ w :: after)) :=
  Relation.ReflTransGen.lift (fun part => array (before ++ part :: after))
    (fun _ _ step => Within.item before after step) v w h

theorem Rearranged.objects (before : Entries Bytes Value)
    (paired : List.Forall₂ (fun e f => e.1 = f.1 ∧ Rearranged e.2 f.2) entries others) :
    Rearranged (.object (before ++ entries)) (.object (before ++ others)) := by
  induction paired generalizing before with
  | nil => exact .refl
  | @cons e f rest later related _ ih =>
      obtain ⟨key, v⟩ := e
      obtain ⟨_, w⟩ := f
      obtain ⟨rfl, first⟩ := related
      have tail := ih (before ++ [(key, w)])
      rw [List.append_assoc, List.append_assoc] at tail
      exact (first.entry before key rest).trans tail

theorem Rearranged.arrays {items others : List Value} (before : List Value)
    (paired : List.Forall₂ Rearranged items others) :
    Rearranged (.array (before ++ items)) (.array (before ++ others)) := by
  induction paired generalizing before with
  | nil => exact .refl
  | @cons v w rest later first _ ih =>
      have tail := ih (before ++ [w])
      rw [List.append_assoc, List.append_assoc] at tail
      exact (first.item before rest).trans tail

end

theorem rearranged_of_beq {v w : Value} (unique : v.hasUniqueKeys) (h : (v == w) = true) :
    Rearranged v w := by
  induction v using ind generalizing w with
  | object entries ih =>
      obtain ⟨others, rfl⟩ := exists_object_of_beq h
      obtain ⟨order, paired, perm⟩ := exists_order_of_beq unique h
      have parts := ((hasUniqueKeys_object entries).1 unique).2
      have inside := (List.forall₂_and_left _ _).2 ⟨fun e mem => mem, paired⟩
      refine (Rearranged.objects [] (inside.imp fun e f related => ?_)).tail (.here (.entries perm))
      obtain ⟨mem, sameKey, equal⟩ := related
      exact ⟨sameKey, ih e mem (parts e mem) equal⟩
  | array items ih =>
      obtain ⟨others, rfl⟩ := exists_array_of_beq h
      have parts := (hasUniqueKeys_array items).1 unique
      have paired := (List.forall₂_and_left _ _).2
        ⟨fun v mem => mem, (beq_array_iff items others).1 h⟩
      exact .arrays [] (paired.imp fun v w related =>
        ih v related.1 (parts v related.1) related.2)
  | int _ | uint _ | float _ | str _ | bool _ | nil =>
      rw [eq_of_beq h nofun nofun]
      exact .refl

/-- Two objects that differ in the order of entries, in one place, are equal, and one has unique
keys if the other has. -/
theorem beq_of_within_permuted {v w : Value} (h : Within Permuted v w)
    (unique : v.hasUniqueKeys) : (v == w) = true ∧ w.hasUniqueKeys := by
  induction h with
  | here permuted =>
      obtain ⟨perm⟩ := permuted
      obtain ⟨nodup, parts⟩ := (hasUniqueKeys_object _).1 unique
      have nodupOther := (perm.map Prod.fst).nodup_iff.1 nodup
      constructor
      · refine object_beq_of_perm (List.forall₂_same.2 fun e mem => ⟨rfl, ?_⟩) perm nodupOther
        exact beq_self (parts e mem)
      · exact (hasUniqueKeys_object _).2 ⟨nodupOther, fun e mem => parts e (perm.mem_iff.2 mem)⟩
  | @entry v w before key after _ ih =>
      obtain ⟨nodup, parts⟩ := (hasUniqueKeys_object _).1 unique
      obtain ⟨front, changed⟩ := List.forall_mem_append.1 parts
      obtain ⟨uniquePart, behind⟩ := List.forall_mem_cons.1 changed
      obtain ⟨equal, uniqueOther⟩ := ih uniquePart
      have sameKeys : Entries.keys (before ++ (key, v) :: after) =
          Entries.keys (before ++ (key, w) :: after) := by
        simp only [Entries.keys, List.map_append, List.map_cons]
      rw [sameKeys] at nodup
      constructor
      · refine object_beq_of_perm ?_ (.refl _) nodup
        exact forall₂_replace (fun e mem => ⟨rfl, beq_self (front e mem)⟩) ⟨rfl, equal⟩
          fun e mem => ⟨rfl, beq_self (behind e mem)⟩
      · exact (hasUniqueKeys_object _).2
          ⟨nodup, List.forall_mem_append.2 ⟨front, List.forall_mem_cons.2 ⟨uniqueOther, behind⟩⟩⟩
  | item before after _ ih =>
      obtain ⟨front, changed⟩ := List.forall_mem_append.1 ((hasUniqueKeys_array _).1 unique)
      obtain ⟨uniquePart, behind⟩ := List.forall_mem_cons.1 changed
      obtain ⟨equal, uniqueOther⟩ := ih uniquePart
      constructor
      · refine (beq_array_iff _ _).2 ?_
        exact forall₂_replace (fun v mem => beq_self (front v mem)) equal
          fun v mem => beq_self (behind v mem)
      · exact (hasUniqueKeys_array _).2
          (List.forall_mem_append.2 ⟨front, List.forall_mem_cons.2 ⟨uniqueOther, behind⟩⟩)

/-- Equality passes on, whether keys are unique or not. -/
theorem beq_trans {u v w : Value} (first : (u == v) = true) (second : (v == w) = true) :
    (u == w) = true := by
  induction u using ind generalizing v w with
  | object entries ih =>
      obtain ⟨middle, rfl⟩ := exists_object_of_beq first
      obtain ⟨others, rfl⟩ := exists_object_of_beq second
      obtain ⟨length, stored⟩ := (beq_object_iff _ _).1 first
      obtain ⟨length', stored'⟩ := (beq_object_iff _ _).1 second
      refine (beq_object_iff _ _).2 ⟨length.trans length', fun e mem => ?_⟩
      obtain ⟨v, found, equal⟩ := stored e mem
      obtain ⟨w, found', equal'⟩ := stored' (e.1, v) (Entries.mem_of_lookup found)
      exact ⟨w, found', ih e mem equal equal'⟩
  | array items ih =>
      obtain ⟨middle, rfl⟩ := exists_array_of_beq first
      obtain ⟨others, rfl⟩ := exists_array_of_beq second
      have paired := (List.forall₂_and_left _ _).2
        ⟨fun v mem => mem, (beq_array_iff _ _).1 first⟩
      refine (beq_array_iff _ _).2 (forall₂_compose ?_ paired ((beq_array_iff _ _).1 second)).flip
      exact fun u v w related equal => ih u related.1 related.2 equal
  | int _ | uint _ | float _ | str _ | bool _ | nil =>
      rw [eq_of_beq first nofun nofun]
      exact second

theorem beq_of_rearranged {v w : Value} (unique : v.hasUniqueKeys) (h : Rearranged v w) :
    (v == w) = true ∧ w.hasUniqueKeys := by
  induction h with
  | refl => exact ⟨beq_self unique, unique⟩
  | tail _ step ih =>
      obtain ⟨equal, uniqueMiddle⟩ := ih
      obtain ⟨equalStep, uniqueLast⟩ := beq_of_within_permuted step uniqueMiddle
      exact ⟨beq_trans equal equalStep, uniqueLast⟩

theorem Permuted.symm {v w : Value} (h : Permuted v w) : Permuted w v := by
  obtain ⟨perm⟩ := h
  exact .entries perm.symm

theorem Within.symm {Change : Value → Value → Prop} (change : ∀ {v w}, Change v w → Change w v)
    {v w : Value} (h : Within Change v w) : Within Change w v := by
  induction h with
  | here h => exact .here (change h)
  | entry before key after _ ih => exact .entry before key after ih
  | item before after _ ih => exact .item before after ih

theorem Rearranged.symm {v w : Value} (h : Rearranged v w) : Rearranged w v := by
  induction h with
  | refl => exact .refl
  | tail _ step ih => exact .head (step.symm Permuted.symm) ih

theorem beq_symm {v w : Value} (unique : v.hasUniqueKeys) (uniqueOther : w.hasUniqueKeys)
    (h : (v == w) = true) : (w == v) = true :=
  (beq_of_rearranged uniqueOther (rearranged_of_beq unique h).symm).1

/-- Equality is blind to the order of entries, at every depth, and to nothing else. -/
theorem beq_iff_rearranged {v w : Value} (unique : v.hasUniqueKeys) :
    (v == w) = true ∧ w.hasUniqueKeys ↔ Rearranged v w :=
  ⟨fun h => rearranged_of_beq unique h.1, beq_of_rearranged unique⟩

end Value
end StackText
