import StackText.Native.Convert
import StackText.Proofs.Text.Utf8

/-!
# When native data can be made from a value

A value conforms to a native type if it has the kinds that the type asks for and its numbers,
strings and keys fit (`Conforms`). Conversion looks at the parts of a value and at the keys in
it from front to back (`nodes`). It succeeds on the values that conform and on no others, and
otherwise fails with the fault of the first node that has one (`faultOf_ofValue`).
-/
namespace StackText

def faultOf {ε α : Type} : Except ε α → Option ε
  | .ok _ => none
  | .error e => some e

section
variable {α β ε : Type}

theorem faultOf_eq_none_iff {x : Except ε α} : faultOf x = none ↔ ∃ a, x = .ok a := by
  cases x <;> simp [faultOf]

theorem faultOf_eq_some_iff {x : Except ε α} {e : ε} : faultOf x = some e ↔ x = .error e := by
  cases x <;> simp [faultOf]

theorem faultOf_map (f : α → β) (x : Except ε α) : faultOf (x.map f) = faultOf x := by
  cases x <;> rfl

theorem faultOf_bind (x : Except ε α) (f : α → Except ε β) :
    faultOf (x >>= f) = match x with
      | .ok a => faultOf (f a)
      | .error e => some e := by
  cases x <;> rfl

/-- What fails in a list is the first member that fails. -/
theorem faultOf_mapM (f : α → Except ε β) (xs : List α) :
    faultOf (xs.mapM f) = xs.findSome? fun x => faultOf (f x) := by
  induction xs with
  | nil => rfl
  | cons x xs ih =>
      rw [List.mapM_cons, faultOf_bind, List.findSome?_cons]
      rcases f x with e | b
      · rfl
      · show faultOf (xs.mapM f >>= fun ys => pure (b :: ys)) = _
        rw [← ih, faultOf_bind]
        cases xs.mapM f <;> rfl

theorem findSome?_flatMap {γ : Type} (p : β → Option γ) (f : α → List β) (xs : List α) :
    (xs.flatMap f).findSome? p = xs.findSome? fun x => (f x).findSome? p := by
  induction xs with
  | nil => rfl
  | cons x xs ih =>
      rw [List.flatMap_cons, List.findSome?_append, ih, List.findSome?_cons]
      cases (f x).findSome? p <;> rfl

end

namespace NativeType

/-- The kind that a type asks for. Optional data may be nil instead, and values may be of any
kind, so these two ask for none themselves. -/
def kind? : NativeType → Option Kind
  | .int type => some type.kind
  | .single | .double => some .float
  | .bool => some .bool
  | .text => some .str
  | .list _ => some .array
  | .sortedMap _ | .unorderedMap _ => some .object
  | .option _ | .value => none

/-- Whether native data can be made from a value. -/
def Conforms : NativeType → Value → Prop
  | .int (.signed w), v => ∃ n, v = .int n ∧ (IntType.signed w).Holds n.toInt
  | .int (.unsigned w), v => ∃ n, v = .uint n ∧ (IntType.unsigned w).Holds n.toNat
  | .single, v | .double, v => ∃ x, v = .float x
  | .bool, v => ∃ b, v = .bool b
  | .text, v => ∃ cs, v = .str (Utf8.encode cs)
  | .value, _ => True
  | .option item, v => v = .nil ∨ Conforms item v
  | .list item, v => ∃ items, v = .array items ∧ ∀ x ∈ items, Conforms item x
  | .sortedMap item, v | .unorderedMap item, v =>
      ∃ entries, v = .object entries ∧
        ∀ e ∈ entries, (∃ cs, e.1 = Utf8.encode cs) ∧ Conforms item e.2

/-- What conversion looks at: a part of a value and the type that it should conform to, or a
key. -/
inductive Node where
  | part (t : NativeType) (v : Value)
  | key (bytes : Bytes)

/-- The nodes of a value from front to back, a container before what it contains and a key
before what is stored under it. There is nothing below a part of the wrong kind, and a part
that may be nil is a node only if it is not. -/
def nodes : NativeType → Value → List Node
  | .value, _ => []
  | .option item, v => if v.isNil then [] else nodes item v
  | .list item, v => .part (.list item) v :: (v.asArray?.getD []).flatMap fun x => nodes item x
  | .sortedMap item, v =>
      .part (.sortedMap item) v :: (v.asObject?.getD []).flatMap fun e =>
        .key e.1 :: nodes item e.2
  | .unorderedMap item, v =>
      .part (.unorderedMap item) v :: (v.asObject?.getD []).flatMap fun e =>
        .key e.1 :: nodes item e.2
  | .int type, v => [.part (.int type) v]
  | .single, v => [.part .single v]
  | .double, v => [.part .double v]
  | .bool, v => [.part .bool v]
  | .text, v => [.part .text v]

/-- What is wrong with a part of the right kind. -/
def rangeFault? : NativeType → Value → Option ConversionError
  | .int type, .int n => if type.Holds n.toInt then none else some (.outOfRange (.int type))
  | .int type, .uint n => if type.Holds n.toNat then none else some (.outOfRange (.int type))
  | .text, .str bytes => if Utf8.IsValid bytes then none else some (.outOfRange .text)
  | _, _ => none

/-- What is wrong with a node itself, whatever is below it. -/
def Node.fault? : Node → Option ConversionError
  | .part t v =>
      match t.kind? with
      | some kind => if v.kind = kind then t.rangeFault? v else some (.mismatch kind v.kind)
      | none => none
  | .key bytes => if Utf8.IsValid bytes then none else some (.outOfRange .text)

theorem faultOf_textOfBytes (bytes : Bytes) :
    faultOf (textOfBytes bytes) = (Node.key bytes).fault? := by
  unfold textOfBytes
  cases read : Utf8.decode? bytes with
  | some cs =>
      have valid : Utf8.IsValid bytes := Option.isSome_of_eq_some read
      exact (if_pos valid).symm
  | none =>
      have invalid : ¬ Utf8.IsValid bytes := by
        rw [Utf8.IsValid, read]
        exact Bool.false_ne_true
      exact (if_neg invalid).symm

theorem faultOf_ofValue_int (type : IntType) (v : Value) :
    faultOf ((int type).ofValue v) = (Node.part (.int type) v).fault? := by
  cases type with
  | signed w =>
      cases v with
      | int n =>
          show faultOf (if h : (IntType.signed w).Holds n.toInt then _ else _) =
            if (IntType.signed w).Holds n.toInt then _ else _
          split <;> rfl
      | _ => rfl
  | unsigned w =>
      cases v with
      | uint n =>
          show faultOf (if h : (IntType.unsigned w).Holds n.toNat then _ else _) =
            if (IntType.unsigned w).Holds n.toNat then _ else _
          split <;> rfl
      | _ => rfl

section
variable {item : NativeType}

theorem faultOf_items
    (ih : ∀ v, faultOf (item.ofValue v) = (item.nodes v).findSome? Node.fault?)
    (items : List Value) :
    faultOf (items.mapM fun x => item.ofValue x) =
      (items.flatMap fun x => item.nodes x).findSome? Node.fault? := by
  rw [faultOf_mapM, findSome?_flatMap]
  simp only [ih]

/-- In each entry the key comes first. -/
theorem faultOf_entries
    (ih : ∀ v, faultOf (item.ofValue v) = (item.nodes v).findSome? Node.fault?)
    (entries : Entries Bytes Value) :
    faultOf (entries.mapM fun e => do return (← textOfBytes e.1, ← item.ofValue e.2)) =
      (entries.flatMap fun e => .key e.1 :: item.nodes e.2).findSome? Node.fault? := by
  rw [faultOf_mapM, findSome?_flatMap]
  congr 1
  funext e
  rw [faultOf_bind, List.findSome?_cons, ← faultOf_textOfBytes, ← ih]
  cases textOfBytes e.1 with
  | error reason => rfl
  | ok key => cases item.ofValue e.2 <;> rfl

end

/-- Conversion fails with the fault of the first node that has one, and else succeeds. -/
theorem faultOf_ofValue (t : NativeType) (v : Value) :
    faultOf (t.ofValue v) = (t.nodes v).findSome? Node.fault? := by
  have alone (node : Node) : [node].findSome? Node.fault? = node.fault? := by
    rw [List.findSome?_cons]
    cases node.fault? <;> rfl
  induction t generalizing v with
  | int type => rw [nodes, alone, faultOf_ofValue_int]
  | single | double | bool => cases v <;> rfl
  | text =>
      rw [nodes, alone]
      cases v with
      | str bytes => exact faultOf_textOfBytes bytes
      | _ => rfl
  | value => rfl
  | option item ih =>
      rw [nodes]
      by_cases nil : v.isNil
      · rw [if_pos nil]
        exact congrArg faultOf (if_pos nil)
      · rw [if_neg nil, ← ih]
        refine (congrArg faultOf (if_neg nil)).trans ?_
        cases item.ofValue v <;> rfl
  | list item ih =>
      cases v with
      | array items => exact faultOf_items ih items
      | _ => rfl
  | sortedMap item ih =>
      cases v with
      | object entries => exact (faultOf_map SortedMap.ofPairs _).trans (faultOf_entries ih entries)
      | _ => rfl
  | unorderedMap item ih =>
      cases v with
      | object entries =>
          exact (faultOf_map UnorderedMap.ofPairs _).trans (faultOf_entries ih entries)
      | _ => rfl

theorem Node.fault?_key_eq_none_iff {bytes : Bytes} :
    (Node.key bytes).fault? = none ↔ ∃ cs, bytes = Utf8.encode cs := by
  rw [← Utf8.isValid_iff, Node.fault?, ite_eq_left_iff]
  simp

theorem Node.fault?_of_kind_ne {t : NativeType} {v : Value} {kind : Kind}
    (asked : t.kind? = some kind) (other : v.kind ≠ kind) :
    (Node.part t v).fault? = some (.mismatch kind v.kind) := by
  rw [Node.fault?, asked]
  exact if_neg other

theorem part_mem_nodes {t : NativeType} {kind : Kind} (asked : t.kind? = some kind) (v : Value) :
    Node.part t v ∈ t.nodes v := by
  cases t with
  | option | value => nomatch asked
  | _ => exact List.mem_cons_self

theorem Conforms.kind_eq {t : NativeType} {v : Value} {kind : Kind} (h : t.Conforms v)
    (asked : t.kind? = some kind) : v.kind = kind := by
  cases t with
  | option | value => nomatch asked
  | int type =>
      cases type <;> obtain ⟨_, rfl, _⟩ := h <;> exact Option.some.inj asked
  | single | double | bool | text =>
      obtain ⟨_, rfl⟩ := h
      exact Option.some.inj asked
  | list | sortedMap | unorderedMap =>
      obtain ⟨_, rfl, _⟩ := h
      exact Option.some.inj asked

theorem conforms_iff_of_kind_ne {t : NativeType} {v : Value} {kind : Kind}
    (asked : t.kind? = some kind) (other : v.kind ≠ kind) :
    t.Conforms v ↔ ∀ n ∈ t.nodes v, n.fault? = none := by
  refine iff_of_false (fun h => other (h.kind_eq asked)) fun faultless => ?_
  have fine := faultless _ (part_mem_nodes asked v)
  rw [Node.fault?_of_kind_ne asked other] at fine
  nomatch fine

theorem conforms_object_iff {item : NativeType}
    (ih : ∀ v, item.Conforms v ↔ ∀ n ∈ item.nodes v, n.fault? = none)
    (entries : Entries Bytes Value) :
    (∃ others, Value.object entries = .object others ∧
        ∀ e ∈ others, (∃ cs, e.1 = Utf8.encode cs) ∧ item.Conforms e.2) ↔
      ∀ n ∈ entries.flatMap fun e => .key e.1 :: item.nodes e.2, n.fault? = none := by
  simp only [Value.object.injEq, exists_eq_left', List.forall_mem_flatMap, List.forall_mem_cons,
    Node.fault?_key_eq_none_iff, ih]

/-- A value conforms if nothing is wrong with any of its nodes. -/
theorem conforms_iff (t : NativeType) (v : Value) :
    t.Conforms v ↔ ∀ n ∈ t.nodes v, n.fault? = none := by
  induction t generalizing v with
  | value => exact iff_of_true trivial (List.forall_mem_nil _)
  | option item ih =>
      rw [Conforms, nodes, ih]
      cases v <;> simp [Value.isNil]
  | int type =>
      cases type with
      | signed w =>
          cases v with
          | int n =>
              simp [Conforms, nodes, Node.fault?, kind?, IntType.kind, rangeFault?, Value.kind]
          | _ => exact conforms_iff_of_kind_ne rfl nofun
      | unsigned w =>
          cases v with
          | uint n =>
              simp [Conforms, nodes, Node.fault?, kind?, IntType.kind, rangeFault?, Value.kind]
          | _ => exact conforms_iff_of_kind_ne rfl nofun
  | single | double =>
      cases v with
      | float x => exact iff_of_true ⟨x, rfl⟩ (List.forall_mem_singleton.2 rfl)
      | _ => exact conforms_iff_of_kind_ne rfl nofun
  | bool =>
      cases v with
      | bool b => exact iff_of_true ⟨b, rfl⟩ (List.forall_mem_singleton.2 rfl)
      | _ => exact conforms_iff_of_kind_ne rfl nofun
  | text =>
      cases v with
      | str bytes =>
          rw [nodes, List.forall_mem_singleton]
          simp only [Conforms, Value.str.injEq]
          exact Node.fault?_key_eq_none_iff.symm
      | _ => exact conforms_iff_of_kind_ne rfl nofun
  | list item ih =>
      cases v with
      | array items =>
          rw [nodes, List.forall_mem_cons]
          have fine : (Node.part (.list item) (.array items)).fault? = none := rfl
          simp only [Conforms, Value.array.injEq, exists_eq_left', ih, fine, true_and,
            Value.asArray?, Option.getD_some, List.forall_mem_flatMap]
      | _ => exact conforms_iff_of_kind_ne rfl nofun
  | sortedMap item ih | unorderedMap item ih =>
      cases v with
      | object entries =>
          rw [nodes, List.forall_mem_cons]
          exact (conforms_object_iff ih entries).trans (and_iff_right rfl).symm
      | _ => exact conforms_iff_of_kind_ne rfl nofun

/-- Conversion succeeds on the values that conform. On any other it fails with the fault of the
first node, front to back, that has one. -/
theorem ofValue_outcome (t : NativeType) (v : Value) :
    ((∃ x, t.ofValue v = .ok x) ↔ t.Conforms v) ∧
      ∀ e, t.ofValue v = .error e ↔
        ∃ before node after, t.nodes v = before ++ node :: after ∧
          (∀ n ∈ before, n.fault? = none) ∧ node.fault? = some e := by
  constructor
  · rw [← faultOf_eq_none_iff, faultOf_ofValue, List.findSome?_eq_none_iff, ← conforms_iff]
  · intro e
    rw [← faultOf_eq_some_iff, faultOf_ofValue, List.findSome?_eq_some_iff]
    constructor
    · rintro ⟨before, node, after, here, fault, earlier⟩
      exact ⟨before, node, after, here, earlier, fault⟩
    · rintro ⟨before, node, after, here, earlier, fault⟩
      exact ⟨before, node, after, here, fault, earlier⟩

/-- The key is not text, but a number that comes before it is too large. -/
example :
    (sortedMap (.list (.option (.int (.unsigned .w8))))).ofValue
      (.object [([97], .array [.uint 7, .nil, .uint 300, .str []]), ([0xFF], .bool true)]) =
        .error (.outOfRange (.int (.unsigned .w8))) := rfl

end NativeType
end StackText
