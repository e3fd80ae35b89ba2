import Mathlib.Data.List.Perm.Basic
import StackText.Proofs.Entries
import StackText.Proofs.Value.Structure
import StackText.Value.Equality

/-!
# What equality of values compares

Two arrays are equal if their items are, place by place (`beq_array_iff`), and two objects
if they have equally many entries and each of the one has an equal entry in the other
(`beq_object_iff`). Where keys are unique, a value is equal to itself (`beq_self`), and an
object to every object whose entries, in whatever order, have the same keys and equal
values (`object_beq_of_perm`).
-/
namespace StackText

theorem exists_mem_of_forall₂ {α β : Type} {R : α → β → Prop} {xs : List α} {ys : List β}
    (h : List.Forall₂ R xs ys) {x : α} (mem : x ∈ xs) : ∃ y ∈ ys, R x y := by
  induction h with
  | nil => exact absurd mem List.not_mem_nil
  | cons first _ ih =>
      rcases List.mem_cons.1 mem with rfl | later
      · exact ⟨_, List.mem_cons_self, first⟩
      · obtain ⟨y, memRest, related⟩ := ih later
        exact ⟨y, List.mem_cons_of_mem _ memRest, related⟩

theorem forall₂_compose {α β γ : Type} {P : α → β → Prop} {Q : β → γ → Prop} {R : γ → α → Prop}
    (h : ∀ a b c, P a b → Q b c → R c a) {as : List α} {bs : List β} {cs : List γ}
    (first : List.Forall₂ P as bs) (second : List.Forall₂ Q bs cs) : List.Forall₂ R cs as := by
  induction first generalizing cs with
  | nil =>
      cases second
      exact .nil
  | cons related _ ih =>
      cases second with
      | cons related' later => exact .cons (h _ _ _ related related') (ih later)

theorem Entries.lookup_of_mem {κ α : Type} [BEq κ] [LawfulBEq κ] {entries : Entries κ α} {e : κ × α}
    (nodup : entries.keys.Nodup) (mem : e ∈ entries) : entries.lookup e.1 = some e.2 := by
  induction entries with
  | nil => exact absurd mem List.not_mem_nil
  | cons first rest ih =>
      rw [keys, List.map_cons, List.nodup_cons] at nodup
      rcases List.mem_cons.1 mem with rfl | later
      · exact List.lookup_cons_self
      · have other : e.1 ≠ first.1 := fun same => nodup.1 (same ▸ List.mem_map_of_mem later)
        have passed : (e.1 == first.1) = false := beq_false_of_ne other
        rw [List.lookup_cons, passed]
        exact ih nodup.2 later

namespace Value

theorem storedEqual_iff (entries others : Entries Bytes Value) :
    storedEqual entries others ↔
      ∀ e ∈ entries, ∃ w, others.lookup e.1 = some w ∧ (e.2 == w) = true := by
  induction entries with
  | nil => simp [storedEqual]
  | cons e rest ih =>
      rw [storedEqual, Bool.and_eq_true, ih, List.forall_mem_cons]
      cases others.lookup e.1 <;> simp [BEq.beq]

theorem itemsEqual_iff (items others : List Value) :
    itemsEqual items others ↔ List.Forall₂ (fun v w => (v == w) = true) items others := by
  induction items generalizing others with
  | nil => cases others <;> simp [itemsEqual]
  | cons v items ih => cases others <;> simp [itemsEqual, ih, BEq.beq]

theorem beq_object_iff (entries others : Entries Bytes Value) :
    (object entries == object others) = true ↔ entries.length = others.length ∧
      ∀ e ∈ entries, ∃ w, others.lookup e.1 = some w ∧ (e.2 == w) = true := by
  show equal (object entries) (object others) ↔ _
  rw [equal, Bool.and_eq_true, beq_iff_eq, storedEqual_iff]

theorem beq_array_iff (items others : List Value) :
    (array items == array others) = true ↔
      List.Forall₂ (fun v w => (v == w) = true) items others := by
  rw [← itemsEqual_iff]
  rfl

/-- The order of the entries of an object does not matter. -/
theorem object_beq_of_perm {entries order others : Entries Bytes Value}
    (paired : List.Forall₂ (fun e f => e.1 = f.1 ∧ (e.2 == f.2) = true) entries order)
    (perm : order.Perm others) (nodup : others.keys.Nodup) :
    (object entries == object others) = true := by
  refine (beq_object_iff _ _).2 ⟨paired.length_eq.trans perm.length_eq, fun e mem => ?_⟩
  obtain ⟨f, memOrder, sameKey, equal⟩ := exists_mem_of_forall₂ paired mem
  exact ⟨f.2, sameKey ▸ Entries.lookup_of_mem nodup (perm.mem_iff.1 memOrder), equal⟩

theorem beq_self {v : Value} (unique : v.hasUniqueKeys) : (v == v) = true := by
  induction v using ind with
  | int n => exact beq_self_eq_true n
  | uint n => exact beq_self_eq_true n
  | float x => exact beq_self_eq_true x
  | str bytes => exact beq_self_eq_true bytes
  | bool b => exact beq_self_eq_true b
  | nil => rfl
  | object entries ih =>
      obtain ⟨nodup, parts⟩ := (hasUniqueKeys_object entries).1 unique
      refine (beq_object_iff _ _).2 ⟨rfl, fun e mem => ?_⟩
      exact ⟨e.2, Entries.lookup_of_mem nodup mem, ih e mem (parts e mem)⟩
  | array items ih =>
      have parts := (hasUniqueKeys_array items).1 unique
      refine (beq_array_iff _ _).2 (List.forall₂_same.2 fun v mem => ih v mem (parts v mem))

end Value
end StackText
