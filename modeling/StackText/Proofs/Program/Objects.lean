import StackText.Proofs.Program.Values
import StackText.Proofs.Sink.History

/-!
# Objects from pairs

A machine that sets pairs one after another makes the object that the pairs result in at once,
whichever keys are repeated (`Value.object_of_pairs`). The program of this object sets each key
once, and needs no more room, since every value that the object stores is one of a pair.
-/
namespace StackText
open Machine

namespace Value

theorem setEntries_eq_flatMap (pairs : List (Bytes × Value)) :
    setEntries pairs =
      pairs.flatMap fun p => (str p.1).program ++ p.2.program ++ [.objAdd] := by
  induction pairs with
  | nil => rfl
  | cons p rest ih =>
      rw [setEntries, ih, List.flatMap_cons, List.append_assoc _ [Opcode.objAdd]]
      rfl

theorem setPairs_replaces {pairs : List (Bytes × Value)}
    (unique : ∀ p ∈ pairs, p.2.hasUniqueKeys) :
    Replaces (.objNew :: setEntries pairs) (object pairs).need [] [ofPairs pairs] := by
  have empty : Replaces [.objNew] 1 [] [.object []] := .push fun _ => .objNew
  have filled := setEntries_replaces pairs [] fun p mem => program_replaces (unique p mem)
  apply (empty.append filled).of_peak_eq
  rw [need]
  split <;> omega

theorem hasUniqueKeys_ofPairs {pairs : List (Bytes × Value)}
    (unique : ∀ p ∈ pairs, p.2.hasUniqueKeys) : (ofPairs pairs).hasUniqueKeys :=
  (hasUniqueKeys_object _).2 ⟨Entries.nodup_keys_ofPairs pairs, fun e mem =>
    unique e (Entries.mem_of_mem_ofPairs pairs mem)⟩

theorem greatestEntryNeed_le_iff {entries : List (Bytes × Value)} {n : Nat} :
    greatestEntryNeed entries ≤ n ↔ ∀ e ∈ entries, e.2.need ≤ n := by
  induction entries with
  | nil => simp [greatestEntryNeed]
  | cons e rest ih =>
      rw [greatestEntryNeed, Nat.max_le, ih, List.forall_mem_cons]

/-- A value that is replaced leaves the room that it needed unused. -/
theorem need_ofPairs_le (pairs : List (Bytes × Value)) :
    (ofPairs pairs).need ≤ (object pairs).need := by
  have greatest : greatestEntryNeed (Entries.ofPairs pairs) ≤ greatestEntryNeed pairs :=
    greatestEntryNeed_le_iff.2 fun e mem =>
      greatestEntryNeed_le_iff.1 (Nat.le_refl _) e (Entries.mem_of_mem_ofPairs pairs mem)
  cases pairs with
  | nil => exact Nat.le_refl 1
  | cons p rest =>
      rw [ofPairs, need, need, List.isEmpty_cons, if_neg Bool.false_ne_true]
      split <;> omega

/-- Pairs that are set one after another on any stack with enough room above it become the
object that stores, under each of their keys in the order of first occurrence, the value of
the last pair with that key. Dumped and run again it is the same. -/
theorem object_of_pairs (pairs : List (Bytes × Value))
    (unique : ∀ p ∈ pairs, p.2.hasUniqueKeys) (m : Machine)
    (room : m.depth + (object pairs).need ≤ m.capacity) :
    let building : List Opcode :=
      .objNew :: pairs.flatMap fun p => (str p.1).program ++ p.2.program ++ [.objAdd]
    let built := ofPairs pairs
    let dump := ({ sink := {} } : Emitter OpcodeTape).value built
    let dumped := dump.state.sink.toList
    m.steps building = .ok (ahead building.length (m.holding (built :: m.stack.values))) ∧
      (∃ entries, built.asObject? = some entries ∧
        Entries.keys entries = (pairs.map (·.1)).eraseDups) ∧
      (∀ key, built.get? key = (pairs.filter (·.1 = key)).getLast?.map (·.2)) ∧
      dump.fault = none ∧
      m.steps dumped = .ok (ahead dumped.length (m.holding (built :: m.stack.values))) := by
  intro building built dump dumped
  obtain ⟨taken, tape⟩ := Emitter.value_new built
  have dumps : dumped = built.program := tape
  refine ⟨?_, ⟨_, rfl, Entries.keys_ofPairs pairs⟩, fun key => Entries.lookup_ofPairs pairs key,
    taken, ?_⟩
  · have builds := setPairs_replaces unique
    rw [setEntries_eq_flatMap] at builds
    exact builds.runs rfl room
  · rw [dumps]
    exact (program_replaces (hasUniqueKeys_ofPairs unique)).runs rfl
      (Nat.le_trans (Nat.add_le_add_left (need_ofPairs_le pairs) _) room)

/-- The first key comes again, so it keeps its place and takes the later value. -/
theorem object_of_pairs_repeated :
    let pairs : List (Bytes × Value) := [([97], .nil), ([98], .bool false), ([97], .bool true)]
    let building : List Opcode :=
      .objNew :: pairs.flatMap fun p => (str p.1).program ++ p.2.program ++ [.objAdd]
    (∀ p ∈ pairs, p.2.hasUniqueKeys) ∧ (object pairs).need = 3 ∧
      ((ofCapacity 3).steps building).state.stack.values =
        [.object [([97], .bool true), ([98], .bool false)]] := by
  intro pairs building
  have unique : ∀ p ∈ pairs, p.2.hasUniqueKeys := by decide
  have run := (object_of_pairs pairs unique (ofCapacity 3) (by decide)).1
  exact ⟨unique, by decide, congrArg (·.state.stack.values) run⟩

end Value
end StackText
