import StackText.Program
import StackText.Proofs.Entries
import StackText.Proofs.Number.Binary64
import StackText.Proofs.Program.Peak
import StackText.Proofs.Value.Structure

/-!
# The program of a value builds that value

On any stack, and with a peak of exactly `Value.need` (`program_replaces`). Numbers
are built by Horner's rule on their bits, modulo 2 ^ 64, so every bit pattern is
reached. Strings, arrays and objects grow in place, each part on top of what is
already there.
-/
namespace StackText

namespace Replaces

theorem of_peak_eq {ops : List Opcode} {a b : Nat} {xs ys : List Value}
    (h : Replaces ops a xs ys) (e : a = b) : Replaces ops b xs ys :=
  e ▸ h

/-- Opcodes without operands, and with one, two and three. -/
theorem push {op : Opcode} {v : Value} (makes : ∀ rest, op.Makes rest v rest) :
    Replaces [op] 1 [] [v] :=
  single [] makes

theorem unary {op : Opcode} {v w : Value} (makes : ∀ rest, op.Makes (v :: rest) w rest) :
    Replaces [op] 1 [v] [w] :=
  single [v] makes

theorem binary {op : Opcode} {v w x : Value} (makes : ∀ rest, op.Makes (v :: w :: rest) x rest) :
    Replaces [op] 2 [v, w] [x] :=
  single [v, w] makes

theorem ternary {op : Opcode} {u v w x : Value}
    (makes : ∀ rest, op.Makes (u :: v :: w :: rest) x rest) : Replaces [op] 3 [u, v, w] [x] :=
  single [u, v, w] makes

/-- One more opcode with one operand, on what is built so far. -/
theorem snoc {ops : List Opcode} {peak : Nat} {xs : List Value} {v w : Value} {op : Opcode}
    (h : Replaces ops (peak + 1) xs [v]) (makes : ∀ rest, op.Makes (v :: rest) w rest) :
    Replaces (ops ++ [op]) (peak + 1) xs [w] :=
  (h.append (unary makes)).of_peak_eq (by omega)

end Replaces

namespace Program

/-- Horner's rule: the bits in front, doubled, and the last bit. -/
theorem ofNat_half (n : Nat) :
    Int64.ofNat (n / 2) + Int64.ofNat (n / 2) + Int64.ofNat (n % 2) = Int64.ofNat n := by
  rw [← Int64.ofNat_add, ← Int64.ofNat_add]
  congr 1
  omega

theorem count_replaces (n : Nat) : Replaces (count n) 1 [.int 0] [.int (.ofNat n)] := by
  fun_induction count n with
  | case1 => exact .nil [.int 0]
  | case2 => exact .unary fun _ => .intInc
  | case3 n _ _ ih =>
      have doubled := ih.snoc fun _ => Opcode.Makes.intShl
      rw [List.append_cons, ← ofNat_half n]
      by_cases odd : n % 2 = 1
      · rw [if_pos odd, odd]
        exact doubled.snoc fun _ => .intInc
      · have even : n % 2 = 0 := by omega
        have none : Int64.ofNat 0 = 0 := rfl
        rw [if_neg odd, List.append_nil, even, none, Int64.add_zero]
        exact doubled

theorem bits_replaces (n : UInt64) : Replaces (bits n) 1 [] [.int n.toInt64] := by
  have zero : Replaces [.intNew] 1 [] [.int 0] := .push fun _ => .intNew
  have counted := zero.append (count_replaces n.toNat)
  rwa [show Int64.ofNat n.toNat = n.toInt64 by rw [← UInt64.toInt64_ofNat', UInt64.ofNat_toNat]]
    at counted

theorem int_replaces (n : Int64) : Replaces (int n) 1 [] [.int n] := by
  unfold int
  split
  · have negated := (bits_replaces (-n).toUInt64).snoc fun _ => Opcode.Makes.intNeg
    rwa [Int64.toInt64_toUInt64, Int64.neg_neg] at negated
  · have built := bits_replaces n.toUInt64
    rwa [Int64.toInt64_toUInt64] at built

theorem uint_replaces (n : UInt64) : Replaces (uint n) 1 [] [.uint n] := by
  have read := (bits_replaces n).snoc fun _ => Opcode.Makes.intToUint
  rwa [UInt64.toUInt64_toInt64] at read

theorem float_replaces (x : Binary64) : Replaces (float x) 1 [] [.float x] := by
  unfold float
  split
  · rename_i canonical
    rw [canonical]
    exact .push fun _ => .floatNan
  · split
    · rename_i infinite
      have positive : Replaces [.floatInf] 1 [] [.float .infinity] := .push fun _ => .floatInf
      have sign := Binary64.eq_of_isInfinite infinite
      by_cases negative : x.isNegative = true
      · rw [if_pos negative] at sign ⊢
        rw [sign]
        exact positive.snoc fun _ => .floatNeg
      · rw [if_neg negative] at sign ⊢
        rw [sign]
        exact positive
    · have read := (bits_replaces x.bits).snoc fun _ => Opcode.Makes.intToFloat
      rwa [UInt64.toUInt64_toInt64] at read

theorem bool_replaces (b : Bool) : Replaces (bool b) 1 [] [.bool b] := by
  have no : Replaces [.boolNew] 1 [] [.bool false] := .push fun _ => .boolNew
  cases b with
  | false => exact no
  | true => exact no.snoc fun _ => .boolNeg

theorem byte_replaces (bytes : Bytes) (b : UInt8) :
    Replaces (bits b.toUInt64 ++ [.strAdd]) 2 [.str bytes] [.str (bytes ++ [b])] := by
  have onTop := (bits_replaces b.toUInt64).frame [.str bytes]
  have appended : Replaces [.strAdd] 2 [.int b.toUInt64.toInt64, .str bytes]
      [.str (bytes ++ [b.toUInt64.toInt64.toUInt64.toUInt8])] := .binary fun _ => .strAdd
  rw [UInt64.toUInt64_toInt64, UInt8.toUInt8_toUInt64] at appended
  exact onTop.append appended

theorem appendBytes_replaces (bytes before : Bytes) :
    Replaces (appendBytes bytes) (if bytes.isEmpty then 1 else 2) [.str before]
      [.str (before ++ bytes)] := by
  induction bytes generalizing before with
  | nil =>
      rw [List.append_nil]
      exact .nil [.str before]
  | cons b rest ih =>
      have all := (byte_replaces before b).append (ih (before ++ [b]))
      rw [List.append_assoc, List.append_assoc, List.singleton_append] at all
      rw [appendBytes, List.flatMap_cons, List.append_assoc]
      apply all.of_peak_eq
      rw [List.isEmpty_cons]
      split <;> rfl

theorem str_replaces (bytes : Bytes) :
    Replaces (str bytes) (Value.str bytes).need [] [.str bytes] := by
  have empty : Replaces [.strNew] 1 [] [.str []] := .push fun _ => .strNew
  apply (empty.append (appendBytes_replaces bytes [])).of_peak_eq
  rw [Value.need]
  split <;> rfl

end Program

namespace Value

/-- The entries of an object are set one by one, each on top of those before it. -/
theorem setEntries_replaces (entries before : List (Bytes × Value))
    (parts : ∀ e ∈ entries, Replaces e.2.program e.2.need [] [e.2]) :
    Replaces (setEntries entries) (if entries.isEmpty then 1 else 2 + greatestEntryNeed entries)
      [.object before] [.object (Entries.setAll before entries)] := by
  induction entries generalizing before with
  | nil => exact .nil [.object before]
  | cons e rest ih =>
      obtain ⟨key, v⟩ := e
      have keyed := (Program.str_replaces key).frame [.object before]
      have valued := (parts (key, v) List.mem_cons_self).frame [.str key, .object before]
      have entered : Replaces [.objAdd] 3 [v, .str key, .object before]
          [.object (Entries.set key v before)] := .ternary fun _ => .objAdd
      have later := ih (Entries.set key v before) fun e h => parts e (List.mem_cons_of_mem _ h)
      have all := ((keyed.append valued).append entered).append later
      rw [List.append_assoc] at all
      apply all.of_peak_eq
      have keyNeed := need_str_le key
      have valueNeed := need_pos v
      simp only [List.isEmpty_cons, List.length_cons, List.length_nil, greatestEntryNeed,
        Bool.false_eq_true, if_false]
      split
      · rename_i last
        rw [List.isEmpty_iff.1 last, greatestEntryNeed]
        omega
      · omega

theorem appendItems_replaces (items before : List Value)
    (parts : ∀ v ∈ items, Replaces v.program v.need [] [v]) :
    Replaces (appendItems items) (if items.isEmpty then 1 else 1 + greatestItemNeed items)
      [.array before] [.array (before ++ items)] := by
  induction items generalizing before with
  | nil =>
      rw [List.append_nil]
      exact .nil [.array before]
  | cons v rest ih =>
      have built := (parts v List.mem_cons_self).frame [.array before]
      have added : Replaces [.arrAdd] 2 [v, .array before] [.array (before ++ [v])] :=
        .binary fun _ => .arrAdd
      have later := ih (before ++ [v]) fun w h => parts w (List.mem_cons_of_mem _ h)
      have all := (built.append added).append later
      rw [List.append_assoc, List.append_assoc, List.singleton_append] at all
      apply all.of_peak_eq
      have itemNeed := need_pos v
      simp only [List.isEmpty_cons, List.length_cons, List.length_nil, greatestItemNeed,
        Bool.false_eq_true, if_false]
      split
      · rename_i last
        rw [List.isEmpty_iff.1 last, greatestItemNeed]
        omega
      · omega

theorem program_replaces {v : Value} (h : v.hasUniqueKeys) :
    Replaces v.program v.need [] [v] := by
  induction v using Value.ind with
  | int n => exact Program.int_replaces n
  | uint n => exact Program.uint_replaces n
  | float x => exact Program.float_replaces x
  | str bytes => exact Program.str_replaces bytes
  | bool b => exact Program.bool_replaces b
  | nil => exact .push fun _ => .nilNew
  | object entries ih =>
      obtain ⟨keys, parts⟩ := (hasUniqueKeys_object entries).1 h
      have empty : Replaces [.objNew] 1 [] [.object []] := .push fun _ => .objNew
      have filled := setEntries_replaces entries [] fun e mem => ih e mem (parts e mem)
      rw [Entries.setAll_of_nodup [] keys, List.nil_append] at filled
      apply (empty.append filled).of_peak_eq
      rw [need]
      split <;> omega
  | array items ih =>
      have parts := (hasUniqueKeys_array items).1 h
      have empty : Replaces [.arrNew] 1 [] [.array []] := .push fun _ => .arrNew
      have filled := appendItems_replaces items [] fun v mem => ih v mem (parts v mem)
      apply (empty.append filled).of_peak_eq
      rw [need]
      split <;> omega

end Value
end StackText
