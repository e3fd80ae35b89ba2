import StackText.Native.Convert
import StackText.Proofs.Native.Map
import StackText.Proofs.Number.Precision
import StackText.Proofs.Text.Utf8

/-!
# Native data comes back from its value

Native data of at most 64 bits a number always has a value (`toValue_eq_image`), and what
comes back from it is the data itself, but for one thing: nil stands for `none` at every
level, so optional data over `none` or over nil comes back as `none` (`settled`).
-/
namespace StackText

theorem mapM_eq_ok_map {α β ε : Type} {f : α → Except ε β} {g : α → β} {xs : List α}
    (h : ∀ x ∈ xs, f x = .ok (g x)) : xs.mapM f = .ok (xs.map g) := by
  induction xs with
  | nil => rfl
  | cons x xs ih =>
      obtain ⟨first, later⟩ := List.forall_mem_cons.1 h
      rw [List.mapM_cons, first, ih later]
      rfl

theorem mapM_map_eq_ok_map {α β γ ε : Type} {f : α → β} {back : β → Except ε γ} {g : α → γ}
    {xs : List α} (h : ∀ x ∈ xs, back (f x) = .ok (g x)) :
    (xs.map f).mapM back = .ok (xs.map g) := by
  rw [List.mapM_map]
  exact mapM_eq_ok_map h

/-- A range of at most 64 bits is part of the widest one with values. -/
theorem IntType.holds_signed_w64 {w : IntWidth} (bounded : w.bits ≤ 64) {n : ℤ}
    (h : (IntType.signed w).Holds n) : (IntType.signed .w64).Holds n := by
  cases w <;> simp_all [Holds, low, high, IntWidth.bits] <;> omega

theorem IntType.holds_unsigned_w64 {w : IntWidth} (bounded : w.bits ≤ 64) {n : ℤ}
    (h : (IntType.unsigned w).Holds n) : (IntType.unsigned .w64).Holds n := by
  cases w <;> simp_all [Holds, low, high, IntWidth.bits] <;> omega

namespace NativeType

/-- No number in the data is wider than 64 bits. -/
def atMost64 : NativeType → Bool
  | .int (.signed w) => w.bits ≤ 64
  | .int (.unsigned w) => w.bits ≤ 64
  | .option item => item.atMost64
  | .list item => item.atMost64
  | .sortedMap item => item.atMost64
  | .unorderedMap item => item.atMost64
  | .single | .double | .bool | .text | .value => true

/-- No single in the data is a signalling NaN. -/
def Quiet : (t : NativeType) → t.Carrier → Prop
  | .single => fun x : Binary32 => ¬ x.isSignalling
  | .option item => fun x : Option item.Carrier => ∀ a ∈ x, Quiet item a
  | .list item => fun xs : List item.Carrier => ∀ a ∈ xs, Quiet item a
  | .sortedMap item => fun m : SortedMap item.Carrier => ∀ e ∈ m.entries, Quiet item e.2
  | .unorderedMap item => fun m : UnorderedMap item.Carrier => ∀ e ∈ m.entries, Quiet item e.2
  | .int _ | .double | .bool | .text | .value => fun _ => True

/-- Whether data has nil for its value. -/
def hasValueNil (t : NativeType) (x : t.Carrier) : Bool :=
  match t.toValue x with
  | .ok v => v.isNil
  | .error _ => false

/-- The data with `none` for every optional part that has nil for its value, the innermost
first. -/
def settled : (t : NativeType) → t.Carrier → t.Carrier
  | .option item => fun x : Option item.Carrier =>
      match x with
      | none => (none : Option item.Carrier)
      | some a =>
          if item.hasValueNil (settled item a) then (none : Option item.Carrier)
          else some (settled item a)
  | .list item => fun xs : List item.Carrier => xs.map (settled item)
  | .sortedMap item => fun m : SortedMap item.Carrier => m.map (settled item)
  | .unorderedMap item => fun m : UnorderedMap item.Carrier => m.map (settled item)
  | .int _ | .single | .double | .bool | .text | .value => id

/-- The data is `none`, or the value nil. -/
def IsNone : (t : NativeType) → t.Carrier → Prop
  | .option item => fun x : Option item.Carrier => x = none
  | .value => fun v : Value => v = .nil
  | .int _ | .single | .double | .bool | .text | .list _ | .sortedMap _ | .unorderedMap _ =>
      fun _ => False

/-- No part of the data is `some` of `none` or of the value nil. -/
def Unambiguous : (t : NativeType) → t.Carrier → Prop
  | .option item => fun x : Option item.Carrier => ∀ a ∈ x, ¬ IsNone item a ∧ Unambiguous item a
  | .list item => fun xs : List item.Carrier => ∀ a ∈ xs, Unambiguous item a
  | .sortedMap item => fun m : SortedMap item.Carrier => ∀ e ∈ m.entries, Unambiguous item e.2
  | .unorderedMap item => fun m : UnorderedMap item.Carrier => ∀ e ∈ m.entries, Unambiguous item e.2
  | .int _ | .single | .double | .bool | .text | .value => fun _ => True

/-- The entries of an object, from those of a map. -/
def objectEntries {α : Type} (f : α → Value) (entries : Entries String α) : Entries Bytes Value :=
  entries.map fun e => (textBytes e.1, f e.2)

/-- The value of data without numbers wider than 64 bits. -/
def image : (t : NativeType) → t.Carrier → Value
  | .int (.signed w) => fun n : (IntType.signed w).Number => .int (Int64.ofInt n.val)
  | .int (.unsigned w) => fun n : (IntType.unsigned w).Number => .uint n.val.toNat.toUInt64
  | .single => fun x : Binary32 => .float x.widen
  | .double => fun x : Binary64 => .float x
  | .bool => fun b : Bool => .bool b
  | .text => fun s : String => .str (textBytes s)
  | .value => fun v : Value => v
  | .option item => fun x : Option item.Carrier => x.elim .nil (image item)
  | .list item => fun xs : List item.Carrier => .array (xs.map (image item))
  | .sortedMap item => fun m : SortedMap item.Carrier =>
      .object (objectEntries (image item) m.entries)
  | .unorderedMap item => fun m : UnorderedMap item.Carrier =>
      .object (objectEntries (image item) m.entries)

theorem textBytes_injective {s t : String} (h : textBytes s = textBytes t) : s = t :=
  String.toList_inj.1 (Utf8.encode_injective h)

theorem textOfBytes_textBytes (s : String) : textOfBytes (textBytes s) = .ok s := by
  simp only [textOfBytes, textBytes, Utf8.decode?_encode, String.ofList_toList]

section
variable {item : NativeType} {entries : Entries String item.Carrier}

/-- Keys that differ as texts differ as bytes. -/
theorem ofPairs_objectEntries {f : item.Carrier → Value} (nodup : entries.keys.Nodup) :
    Value.ofPairs (objectEntries f entries) = .object (objectEntries f entries) := by
  have injective : Function.Injective textBytes := fun _ _ => textBytes_injective
  have bytes : (entries.keys.map textBytes).Nodup := nodup.map injective
  have keys : (Entries.keys (objectEntries f entries)).Nodup := by
    rw [Entries.keys, List.map_map] at bytes
    rwa [Entries.keys, objectEntries, List.map_map]
  exact congrArg Value.object (Entries.setAll_of_nodup [] keys)

theorem toValue_entries (ih : ∀ a, item.toValue a = .ok (item.image a))
    (nodup : entries.keys.Nodup) :
    (do let pairs ← entries.mapM fun e => return (textBytes e.1, ← item.toValue e.2)
        return Value.ofPairs pairs : Except ConversionError Value) =
      .ok (.object (objectEntries item.image entries)) := by
  have pairs : (entries.mapM fun e => return (textBytes e.1, ← item.toValue e.2) :
      Except ConversionError _) = .ok (objectEntries item.image entries) := by
    refine mapM_eq_ok_map fun e _ => ?_
    rw [ih]
    rfl
  rw [pairs, ← ofPairs_objectEntries nodup]
  rfl

theorem objectEntries_settled (ih : ∀ a, item.image (item.settled a) = item.image a) :
    objectEntries item.image (entries.map fun e => (e.1, item.settled e.2)) =
      objectEntries item.image entries := by
  rw [objectEntries, List.map_map]
  exact List.map_congr_left fun e _ => Prod.ext rfl (ih e.2)

theorem ofValue_entries
    (ih : ∀ e ∈ entries, item.ofValue (item.image e.2) = .ok (item.settled e.2)) :
    ((objectEntries item.image entries).mapM fun e =>
        return (← textOfBytes e.1, ← item.ofValue e.2) : Except ConversionError _) =
      .ok (entries.map fun e => (e.1, item.settled e.2)) := by
  refine mapM_map_eq_ok_map fun e mem => ?_
  rw [textOfBytes_textBytes, ih e mem]
  rfl

end

theorem toValue_eq_image {t : NativeType} (bounded : t.atMost64) (x : t.Carrier) :
    t.toValue x = .ok (t.image x) := by
  induction t with
  | int type =>
      cases type with
      | signed w =>
          exact if_pos (IntType.holds_signed_w64 (of_decide_eq_true bounded) x.property)
      | unsigned w =>
          exact if_pos (IntType.holds_unsigned_w64 (of_decide_eq_true bounded) x.property)
  | single => rfl
  | double => rfl
  | bool => rfl
  | text => rfl
  | value => rfl
  | option item ih =>
      cases x with
      | none => rfl
      | some a => exact ih bounded a
  | list item ih =>
      have values : List.mapM item.toValue x = .ok (List.map item.image x) :=
        mapM_eq_ok_map fun a _ => ih bounded a
      exact congrArg (fun r => do return Value.array (← r)) values
  | sortedMap item ih => exact toValue_entries (ih bounded) (SortedMap.nodup_keys x)
  | unorderedMap item ih => exact toValue_entries (ih bounded) (UnorderedMap.nodup_keys x)

theorem hasValueNil_eq {t : NativeType} (bounded : t.atMost64) (x : t.Carrier) :
    t.hasValueNil x = (t.image x).isNil := by
  rw [hasValueNil, toValue_eq_image bounded]

theorem eq_nil_of_isNil {v : Value} (h : v.isNil) : v = .nil := by
  cases v <;> first | rfl | cases h

theorem settled_some {item : NativeType} (bounded : item.atMost64) (a : item.Carrier) :
    settled (.option item) (some a : Option item.Carrier) =
      if (item.image (item.settled a)).isNil then (none : Option item.Carrier)
      else some (item.settled a) := by
  rw [← hasValueNil_eq bounded]
  rfl

/-- What is taken out is not seen in the value. -/
theorem image_settled {t : NativeType} (bounded : t.atMost64) (x : t.Carrier) :
    t.image (t.settled x) = t.image x := by
  induction t with
  | option item ih =>
      cases x with
      | none => rfl
      | some a =>
          have inner : item.atMost64 := bounded
          have same := ih inner a
          rw [settled_some inner]
          split
          · rename_i nil
            rw [same] at nil
            exact (eq_nil_of_isNil nil).symm
          · exact same
  | list item ih =>
      change List item.Carrier at x
      show Value.array ((x.map item.settled).map item.image) = .array (x.map item.image)
      rw [List.map_map]
      exact congrArg Value.array (List.map_congr_left fun a _ => ih bounded a)
  | sortedMap item ih => exact congrArg Value.object (objectEntries_settled (ih bounded))
  | unorderedMap item ih => exact congrArg Value.object (objectEntries_settled (ih bounded))
  | int _ | single | double | bool | text | value => rfl

theorem ofValue_image_int {type : IntType} (bounded : (int type).atMost64) (n : type.Number) :
    (int type).ofValue ((int type).image n) = .ok n := by
  have payload : intOfValue type ((int type).image n) = .ok n.val := by
    cases type with
    | signed w =>
        have fits := IntType.holds_signed_w64 (of_decide_eq_true bounded) n.property
        exact congrArg Except.ok (Int64.toInt_ofInt_of_le fits.1 (Int.lt_of_le_sub_one fits.2))
    | unsigned w =>
        obtain ⟨low, high⟩ := IntType.holds_unsigned_w64 (of_decide_eq_true bounded) n.property
        have word : n.val.toNat.toUInt64.toNat = n.val.toNat :=
          UInt64.toNat_ofNat_of_lt' ((Int.toNat_lt low).2 (Int.lt_of_le_sub_one high))
        have same : (n.val.toNat.toUInt64.toNat : ℤ) = n.val := by
          rw [word, Int.toNat_of_nonneg low]
        exact congrArg Except.ok same
  rw [ofValue, payload]
  exact dif_pos n.property

/-- What comes back from the value of data. -/
theorem ofValue_image {t : NativeType} (bounded : t.atMost64) (x : t.Carrier) (quiet : t.Quiet x) :
    t.ofValue (t.image x) = .ok (t.settled x) := by
  induction t with
  | int type => exact ofValue_image_int bounded x
  | single => exact congrArg Except.ok (Binary32.narrow_widen quiet)
  | double => rfl
  | bool => rfl
  | text => exact textOfBytes_textBytes x
  | value => rfl
  | option item ih =>
      cases x with
      | none => rfl
      | some a =>
          have inner : item.atMost64 := bounded
          -- Taking a part out and reading nil as `none` look at the same value.
          have same := image_settled inner a
          have back := ih inner a (quiet a rfl)
          rw [settled_some inner, same]
          show ofValue (.option item) (item.image a) = _
          by_cases nil : (item.image a).isNil
          · rw [if_pos nil]
            exact if_pos nil
          · rw [if_neg nil]
            refine (if_neg nil).trans ?_
            rw [back]
            rfl
  | list item ih =>
      change List item.Carrier at x
      have items : (x.map item.image).mapM item.ofValue = .ok (x.map item.settled) :=
        mapM_map_eq_ok_map fun a mem => ih bounded a (quiet a mem)
      exact items
  | sortedMap item ih =>
      change SortedMap item.Carrier at x
      have pairs := ofValue_entries fun e mem => ih bounded e.2 (quiet e mem)
      have rebuilt := congrArg (fun r => do return SortedMap.ofPairs (← r)) pairs
      exact rebuilt.trans (congrArg Except.ok (SortedMap.ofPairs_entries (x.map item.settled)))
  | unorderedMap item ih =>
      change UnorderedMap item.Carrier at x
      have pairs := ofValue_entries fun e mem => ih bounded e.2 (quiet e mem)
      have rebuilt := congrArg (fun r => do return UnorderedMap.ofPairs (← r)) pairs
      exact rebuilt.trans (congrArg Except.ok (UnorderedMap.ofPairs_entries (x.map item.settled)))

/-- Data that is neither `none` nor nil at its top does not have nil for its value. -/
theorem isNil_image_eq_false {t : NativeType} {x : t.Carrier} (present : ¬ t.IsNone x)
    (unambiguous : t.Unambiguous x) : (t.image x).isNil = false := by
  induction t with
  | option item ih =>
      cases x with
      | none => exact absurd rfl present
      | some a =>
          obtain ⟨inside, deeper⟩ := unambiguous a rfl
          exact ih inside deeper
  | value =>
      cases x <;> first | rfl | exact absurd rfl present
  | int type => cases type <;> rfl
  | single | double | bool | text | list _ _ | sortedMap _ _ | unorderedMap _ _ => rfl

theorem settled_eq_self {t : NativeType} (bounded : t.atMost64) {x : t.Carrier}
    (h : t.Unambiguous x) : t.settled x = x := by
  induction t with
  | option item ih =>
      cases x with
      | none => rfl
      | some a =>
          obtain ⟨present, deeper⟩ := h a rfl
          have inner : item.atMost64 := bounded
          have notNil := isNil_image_eq_false present deeper
          rw [settled_some inner, ih inner deeper, notNil]
          rfl
  | list item ih =>
      change List item.Carrier at x
      exact (List.map_congr_left fun a mem => ih bounded (h a mem)).trans (List.map_id x)
  | sortedMap item ih => exact SortedMap.map_eq_self fun e mem => ih bounded (h e mem)
  | unorderedMap item ih => exact UnorderedMap.map_eq_self fun e mem => ih bounded (h e mem)
  | int _ | single | double | bool | text | value => rfl

/-- Native data without numbers wider than 64 bits and without signalling single NaNs has a
value, and comes back from it as it was, but with `none` for every optional part that has
nil for its value. If no optional part holds `none` or nil, nothing is different. -/
theorem ofValue_toValue (t : NativeType) (bounded : t.atMost64) (x : t.Carrier)
    (quiet : t.Quiet x) :
    ∃ v, t.toValue x = .ok v ∧ t.ofValue v = .ok (t.settled x) ∧
      (t.Unambiguous x → t.settled x = x) :=
  ⟨t.image x, toValue_eq_image bounded x, ofValue_image bounded x quiet, settled_eq_self bounded⟩

/-- A list of singles, each optional twice. What is present but holds `none` comes back as
absent, and nothing else changes. -/
theorem ofValue_toValue_nested :
    let t : NativeType := .list (.option (.option .single))
    let one : Binary32 := ⟨0x3f800000⟩
    let mixed : List (Option (Option Binary32)) := [none, some none, some (some one)]
    let kept : List (Option (Option Binary32)) := [none, some (some one)]
    (t.Quiet mixed ∧ ∃ v, t.toValue mixed = .ok v ∧
      t.ofValue v = .ok ([none, none, some (some one)] : List (Option (Option Binary32)))) ∧
      t.Quiet kept ∧ t.Unambiguous kept ∧ ∃ v, t.toValue kept = .ok v ∧ t.ofValue v = .ok kept := by
  intro t one mixed kept
  have quiet (xs : List (Option (Option Binary32)))
      (only : ∀ x ∈ xs, ∀ a ∈ x, ∀ b ∈ a, b = one) : t.Quiet xs := by
    intro x memX a memA b memB
    obtain rfl := only x memX a memA b memB
    show ¬ one.isSignalling
    decide
  have quietMixed : t.Quiet mixed := quiet mixed (by simp [mixed])
  have quietKept : t.Quiet kept := quiet kept (by simp [kept])
  have present : ∀ x ∈ kept, ∀ a ∈ x, a = some one := by simp [kept]
  have unambiguousKept : t.Unambiguous kept := by
    intro x memX a memA
    obtain rfl := present x memX a memA
    exact ⟨Option.some_ne_none one, fun b _ => ⟨id, trivial⟩⟩
  obtain ⟨v, value, back, -⟩ := ofValue_toValue t rfl mixed quietMixed
  obtain ⟨w, valueKept, backKept, same⟩ := ofValue_toValue t rfl kept quietKept
  rw [same unambiguousKept] at backKept
  exact ⟨⟨quietMixed, v, value, back⟩, quietKept, unambiguousKept, w, valueKept, backKept⟩

end NativeType
end StackText
