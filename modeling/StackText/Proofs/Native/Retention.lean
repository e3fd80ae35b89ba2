import StackText.Proofs.Native.RoundTrip
import StackText.Proofs.Value.Equality

/-!
# A value comes back from its native data

Native data made from a value turns into that value again. Only maps lose something, and
only the order of the entries, which equality of values does not see: a sorted map brings
its keys into order, and an unordered one may list its entries in any order (`Same`), at
every depth. No two keys become one, since bytes that are valid text come back from it. A
value read as absent is nil, so it also comes back as nil.
-/
namespace StackText
namespace Value

theorem asInt?_eq_some_iff {v : Value} {n : Int64} : v.asInt? = some n ↔ v = .int n := by
  cases v <;> simp [asInt?]

theorem asUint?_eq_some_iff {v : Value} {n : UInt64} : v.asUint? = some n ↔ v = .uint n := by
  cases v <;> simp [asUint?]

theorem asFloat?_eq_some_iff {v : Value} {x : Binary64} : v.asFloat? = some x ↔ v = .float x := by
  cases v <;> simp [asFloat?]

theorem asStr?_eq_some_iff {v : Value} {bytes : Bytes} :
    v.asStr? = some bytes ↔ v = .str bytes := by
  cases v <;> simp [asStr?]

theorem asBool?_eq_some_iff {v : Value} {b : Bool} : v.asBool? = some b ↔ v = .bool b := by
  cases v <;> simp [asBool?]

theorem asObject?_eq_some_iff {v : Value} {entries : Entries Bytes Value} :
    v.asObject? = some entries ↔ v = .object entries := by
  cases v <;> simp [asObject?]

theorem asArray?_eq_some_iff {v : Value} {items : List Value} :
    v.asArray? = some items ↔ v = .array items := by
  cases v <;> simp [asArray?]

end Value

theorem exists_of_bind_eq_ok {α β ε : Type} {x : Except ε α} {f : α → Except ε β} {b : β}
    (h : x >>= f = .ok b) : ∃ a, x = .ok a ∧ f a = .ok b := by
  cases x with
  | error e => cases h
  | ok a => exact ⟨a, rfl, h⟩

theorem exists_of_map_eq_ok {α β ε : Type} {x : Except ε α} {f : α → β} {b : β}
    (h : x.map f = .ok b) : ∃ a, x = .ok a ∧ f a = b := by
  cases x with
  | error e => cases h
  | ok a => exact ⟨a, rfl, Except.ok.inj h⟩

theorem forall₂_of_mapM_eq_ok {α β ε : Type} {f : α → Except ε β} {xs : List α} {ys : List β}
    (h : xs.mapM f = .ok ys) : List.Forall₂ (fun x y => f x = .ok y) xs ys := by
  induction xs generalizing ys with
  | nil =>
      cases h
      exact .nil
  | cons x xs ih =>
      rw [List.mapM_cons] at h
      obtain ⟨y, first, h⟩ := exists_of_bind_eq_ok h
      obtain ⟨rest, later, h⟩ := exists_of_bind_eq_ok h
      cases h
      exact .cons first (ih later)

namespace NativeType

/-- Whether some part of the data is single. -/
def hasSingle : NativeType → Bool
  | .single => true
  | .option item | .list item | .sortedMap item | .unorderedMap item => item.hasSingle
  | .int _ | .double | .bool | .text | .value => false

/-- Whether some part of the data is a map. -/
def hasMap : NativeType → Bool
  | .sortedMap _ | .unorderedMap _ => true
  | .option item | .list item => item.hasMap
  | .int _ | .single | .double | .bool | .text | .value => false

/-- Entries with the same keys, place by place, and related data under them. -/
abbrev RelatedEntries {α β : Type} (R : α → β → Prop) :
    Entries String α → Entries String β → Prop :=
  List.Forall₂ fun e f => e.1 = f.1 ∧ R e.2 f.2

/-- The same data, up to the order in which its unordered maps list their entries. -/
def Same : (t : NativeType) → t.Carrier → t.Carrier → Prop
  | .option item => fun x y : Option item.Carrier => Option.Rel (Same item) x y
  | .list item => fun xs ys : List item.Carrier => List.Forall₂ (Same item) xs ys
  | .sortedMap item => fun m n : SortedMap item.Carrier =>
      RelatedEntries (Same item) m.entries n.entries
  | .unorderedMap item => fun m n : UnorderedMap item.Carrier =>
      ∃ order, m.entries.Perm order ∧ RelatedEntries (Same item) order n.entries
  | .int _ | .single | .double | .bool | .text | .value => Eq

theorem same_refl (t : NativeType) (x : t.Carrier) : t.Same x x := by
  induction t with
  | option item ih =>
      cases x with
      | none => exact .none
      | some a => exact .some (ih a)
  | list item ih => exact List.forall₂_same.2 fun a _ => ih a
  | sortedMap item ih => exact List.forall₂_same.2 fun e _ => ⟨rfl, ih e.2⟩
  | unorderedMap item ih => exact ⟨_, .refl _, List.forall₂_same.2 fun e _ => ⟨rfl, ih e.2⟩⟩
  | int _ | single | double | bool | text | value => rfl

theorem expect_eq_ok {α : Type} {kind : Kind} {payload? : Value → Option α} {v : Value} {a : α}
    (h : expect kind payload? v = .ok a) : payload? v = some a := by
  unfold expect at h
  split at h
  · cases h
    assumption
  · cases h

theorem textBytes_of_textOfBytes {bytes : Bytes} {s : String} (h : textOfBytes bytes = .ok s) :
    textBytes s = bytes := by
  unfold textOfBytes at h
  split at h
  · rename_i cs read
    cases h
    rw [textBytes, String.toList_ofList, Utf8.encode_of_decode? read]
  · cases h

theorem image_of_ofValue_int {type : IntType} {v : Value} {n : type.Number}
    (accepted : (int type).ofValue v = .ok n) : (int type).image n = v := by
  obtain ⟨m, payload, checked⟩ := exists_of_bind_eq_ok accepted
  split at checked
  · cases checked
    cases type with
    | signed w =>
        obtain ⟨word, found, rfl⟩ := exists_of_map_eq_ok payload
        rw [Value.asInt?_eq_some_iff.1 (expect_eq_ok found)]
        exact congrArg Value.int (Int64.ofInt_toInt word)
    | unsigned w =>
        obtain ⟨word, found, rfl⟩ := exists_of_map_eq_ok payload
        rw [Value.asUint?_eq_some_iff.1 (expect_eq_ok found)]
        exact congrArg Value.uint UInt64.ofNat_toNat
  · cases checked

theorem image_text_of_ofValue {v : Value} {s : String} (accepted : text.ofValue v = .ok s) :
    text.image s = v := by
  obtain ⟨bytes, found, valid⟩ := exists_of_bind_eq_ok accepted
  rw [Value.asStr?_eq_some_iff.1 (expect_eq_ok found)]
  exact congrArg Value.str (textBytes_of_textOfBytes valid)

/-- The data has a value equal to the one given, and if there is no map, that very value. -/
structure Restores (t : NativeType) (x : t.Carrier) (v : Value) : Prop where
  equal : (t.image x == v) = true
  identical : t.hasMap = false → t.image x = v

theorem Restores.of_eq {t : NativeType} {x : t.Carrier} {v : Value} (unique : v.hasUniqueKeys)
    (same : t.image x = v) : t.Restores x v := by
  constructor
  · rw [same]
    exact Value.beq_self unique
  · exact fun _ => same

section
variable {item : NativeType} {entries : Entries Bytes Value} {pairs : Entries String item.Carrier}

/-- An entry of an object and the one of a map that is made from it. -/
def Accepts (item : NativeType) (e : Bytes × Value) (p : String × item.Carrier) : Prop :=
  textOfBytes e.1 = .ok p.1 ∧ item.ofValue e.2 = .ok p.2

theorem accepts_of_mapM_eq_ok
    (h : (entries.mapM fun e => do return (← textOfBytes e.1, ← item.ofValue e.2)) = .ok pairs) :
    List.Forall₂ (Accepts item) entries pairs := by
  refine (forall₂_of_mapM_eq_ok h).imp fun e p made => ?_
  obtain ⟨key, valid, made⟩ := exists_of_bind_eq_ok made
  obtain ⟨data, accepted, made⟩ := exists_of_bind_eq_ok made
  cases made
  exact ⟨valid, accepted⟩

/-- No two keys of an object are the same text. -/
theorem nodup_keys_of_accepts (accepts : List.Forall₂ (Accepts item) entries pairs)
    (nodup : entries.keys.Nodup) : pairs.keys.Nodup := by
  have keys : pairs.keys.map textBytes = entries.keys := by
    induction accepts with
    | nil => rfl
    | cons first _ ih =>
        have rest := ih (List.nodup_cons.1 nodup).2
        simp only [Entries.keys, List.map_cons] at rest ⊢
        rw [textBytes_of_textOfBytes first.1, rest]
  rw [← keys] at nodup
  exact nodup.of_map

/-- Equality does not see in which order a map lists what it was made from. -/
theorem object_beq_of_accepts {order listed : Entries String item.Carrier}
    (unique : (Value.object entries).hasUniqueKeys)
    (accepts : List.Forall₂ (Accepts item) entries pairs) (perm : pairs.Perm order)
    (related : RelatedEntries item.Same order listed)
    (ih : ∀ {v}, v.hasUniqueKeys → ∀ {x y}, item.ofValue v = .ok x → item.Same x y →
      item.Restores y v) :
    (Value.object (objectEntries item.image listed) == Value.object entries) = true := by
  obtain ⟨nodup, parts⟩ := (Value.hasUniqueKeys_object entries).1 unique
  have both := (List.forall₂_and_left _ _).2 ⟨parts, accepts⟩
  have moved : Relation.Comp List.Perm
      (List.Forall₂ fun e p => e.2.hasUniqueKeys = true ∧ Accepts item e p) entries order := by
    rw [← List.forall₂_comp_perm_eq_perm_comp_forall₂]
    exact ⟨pairs, both, perm⟩
  obtain ⟨rearranged, permuted, accepts⟩ := moved
  have paired : List.Forall₂ (fun e f => e.1 = f.1 ∧ (e.2 == f.2) = true)
      (objectEntries item.image listed) rearranged := by
    rw [objectEntries, List.forall₂_map_left_iff]
    refine forall₂_compose ?_ accepts related
    rintro e p f ⟨uniqueValue, valid, accepted⟩ ⟨key, same⟩
    constructor
    · rw [← key, textBytes_of_textOfBytes valid]
    · exact (ih uniqueValue accepted same).equal
  exact Value.object_beq_of_perm paired permuted.symm nodup

/-- A map is made from the entries of an object, and no two of them fall together. -/
theorem exists_entries_of_ofValue (item : NativeType) {Map : Type}
    (build : Entries String item.Carrier → Map) {v : Value} (unique : v.hasUniqueKeys) {m : Map}
    (accepted : (do
      let entries ← expect .object Value.asObject? v
      let pairs ← entries.mapM fun (e : Bytes × Value) => do
        return (← textOfBytes e.1, ← item.ofValue e.2)
      return build pairs) = .ok m) :
    ∃ entries pairs, v = .object entries ∧ m = build pairs ∧
      List.Forall₂ (Accepts item) entries pairs ∧ pairs.keys.Nodup := by
  obtain ⟨entries, found, read⟩ := exists_of_bind_eq_ok accepted
  obtain rfl := Value.asObject?_eq_some_iff.1 (expect_eq_ok found)
  obtain ⟨pairs, each, made⟩ := exists_of_bind_eq_ok read
  have accepts := accepts_of_mapM_eq_ok each
  have nodup := nodup_keys_of_accepts accepts ((Value.hasUniqueKeys_object entries).1 unique).1
  exact ⟨entries, pairs, rfl, (Except.ok.inj made).symm, accepts, nodup⟩

end

theorem Restores.array {item : NativeType} {xs : List item.Carrier} {items : List Value}
    (each : List.Forall₂ item.Restores xs items) : (list item).Restores xs (.array items) := by
  constructor
  · refine (Value.beq_array_iff _ _).2 (List.forall₂_map_left_iff.2 ?_)
    exact each.imp fun _ _ r => r.equal
  · intro noMap
    have same : List.Forall₂ (· = ·) (xs.map item.image) items :=
      List.forall₂_map_left_iff.2 (each.imp fun _ _ r => r.identical noMap)
    exact congrArg Value.array (List.forall₂_eq_eq_eq ▸ same)

theorem restores_of_ofValue {t : NativeType} (noSingle : t.hasSingle = false) {v : Value}
    (unique : v.hasUniqueKeys) {x y : t.Carrier} (accepted : t.ofValue v = .ok x)
    (same : t.Same x y) : t.Restores y v := by
  induction t generalizing v with
  | single => cases noSingle
  | int type =>
      obtain rfl : x = y := same
      exact .of_eq unique (image_of_ofValue_int accepted)
  | double =>
      obtain rfl : x = y := same
      exact .of_eq unique (Value.asFloat?_eq_some_iff.1 (expect_eq_ok accepted)).symm
  | bool =>
      obtain rfl : x = y := same
      exact .of_eq unique (Value.asBool?_eq_some_iff.1 (expect_eq_ok accepted)).symm
  | text =>
      obtain rfl : x = y := same
      exact .of_eq unique (image_text_of_ofValue accepted)
  | value =>
      obtain rfl : x = y := same
      exact .of_eq unique (Except.ok.inj accepted).symm
  | option item ih =>
      by_cases isNil : v.isNil
      · have absent : x = (none : Option item.Carrier) :=
          Except.ok.inj (accepted.symm.trans (if_pos isNil))
        subst absent
        cases same
        exact .of_eq unique (eq_nil_of_isNil isNil).symm
      · obtain ⟨a, inside, made⟩ := exists_of_bind_eq_ok ((if_neg isNil).symm.trans accepted)
        cases made
        cases same with
        | some same =>
            obtain ⟨equal, identical⟩ := ih noSingle unique inside same
            exact ⟨equal, identical⟩
  | list item ih =>
      obtain ⟨items, found, read⟩ := exists_of_bind_eq_ok accepted
      obtain rfl := Value.asArray?_eq_some_iff.1 (expect_eq_ok found)
      have parts := (Value.hasUniqueKeys_array items).1 unique
      have both := (List.forall₂_and_left _ _).2 ⟨parts, forall₂_of_mapM_eq_ok read⟩
      have related : List.Forall₂ item.Same x y := same
      refine .array (forall₂_compose ?_ both related)
      rintro part a b ⟨uniquePart, accepted⟩ same
      exact ih noSingle uniquePart accepted same
  | sortedMap item ih =>
      obtain ⟨entries, pairs, rfl, rfl, accepts, nodup⟩ :=
        exists_entries_of_ofValue item SortedMap.ofPairs unique accepted
      constructor
      · exact object_beq_of_accepts unique accepts (SortedMap.ofPairs_perm nodup).symm same
          (ih noSingle)
      · exact fun noMap => nomatch noMap
  | unorderedMap item ih =>
      obtain ⟨entries, pairs, rfl, rfl, accepts, nodup⟩ :=
        exists_entries_of_ofValue item UnorderedMap.ofPairs unique accepted
      obtain ⟨order, perm, related⟩ := same
      constructor
      · rw [UnorderedMap.entries_ofPairs nodup] at perm
        exact object_beq_of_accepts unique accepts perm related (ih noSingle)
      · exact fun noMap => nomatch noMap

/-- Conversion back loses nothing. If native data was made from a value whose objects store
each key once, the data has a value that is equal to the first one, in whatever order its
unordered maps list their entries, and that is the first one itself if there is no map. -/
theorem toValue_ofValue {t : NativeType} (bounded : t.atMost64) (noSingle : t.hasSingle = false)
    {v : Value} (unique : v.hasUniqueKeys) {x : t.Carrier} (accepted : t.ofValue v = .ok x)
    {y : t.Carrier} (same : t.Same x y) :
    ∃ w, t.toValue y = .ok w ∧ (w == v) = true ∧ (t.hasMap = false → w = v) := by
  obtain ⟨equal, identical⟩ := restores_of_ofValue noSingle unique accepted same
  exact ⟨t.image y, toValue_eq_image bounded y, equal, identical⟩

/-- An unordered map that lists its entries the other way round, and a list without maps. -/
theorem toValue_ofValue_rearranged :
    let t : NativeType := .list (.unorderedMap (.option .bool))
    let v : Value := .array [.object [(textBytes "b", .bool true), (textBytes "a", .nil)]]
    let listed : List (UnorderedMap (Option Bool)) :=
      [⟨[("a", none), ("b", some true)], by decide⟩]
    let flat : Value := .array [.nil, .bool true]
    (∃ w, t.toValue listed = .ok w ∧ (w == v) = true) ∧
      ∃ x, (list (.option .bool)).ofValue flat = .ok x ∧
        (list (.option .bool)).toValue x = .ok flat := by
  intro t v listed flat
  constructor
  · let x : List (UnorderedMap (Option Bool)) := [⟨[("b", some true), ("a", none)], by decide⟩]
    have accepted : t.ofValue v = .ok x := rfl
    have same : t.Same x listed :=
      .cons ⟨_, .swap _ _ _, List.forall₂_same.2 fun e _ => ⟨rfl, same_refl (option .bool) e.2⟩⟩
        .nil
    obtain ⟨w, value, equal, -⟩ := toValue_ofValue (t := t) rfl rfl (by decide) accepted same
    exact ⟨w, value, equal⟩
  · let x : List (Option Bool) := [none, some true]
    have accepted : (list (.option .bool)).ofValue flat = .ok x := rfl
    obtain ⟨w, value, -, identical⟩ :=
      toValue_ofValue (t := list (.option .bool)) rfl rfl (by decide) accepted (same_refl _ _)
    rw [identical rfl] at value
    exact ⟨x, accepted, value⟩

end NativeType
end StackText
