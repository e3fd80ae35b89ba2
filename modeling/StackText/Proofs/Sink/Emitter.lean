import StackText.Sink.Emitter
import StackText.Proofs.Sink.Opcodes
import StackText.Proofs.Value.Structure

/-!
# The walk through a value follows its program

To walk through a value and emit opcodes on the way is to hand the value's program to the
sink: at every depth a refusal ends the walk where it ends the program
(`Emitter.value_eq`). So an emitter fails when, and as, the sink behind it refuses, and
counts what that sink has taken. A new tape refuses nothing, so the whole program is left
there (`Emitter.collect_eq`).
-/
namespace StackText

namespace Emitter
variable {σ : Type} [OpcodeSink σ]

/-- Emits opcodes until one is refused. -/
def putAll (e : Emitter σ) (ops : List Opcode) : Attempt IoError (Emitter σ) :=
  Attempt.runAll put e ops

theorem putAll_nil (e : Emitter σ) : e.putAll [] = .ok e := rfl

theorem putAll_cons (e : Emitter σ) (op : Opcode) (rest : List Opcode) :
    e.putAll (op :: rest) = (e.put op).andThen fun e => e.putAll rest := rfl

theorem putAll_append (e : Emitter σ) (first second : List Opcode) :
    e.putAll (first ++ second) = (e.putAll first).andThen fun e => e.putAll second :=
  Attempt.runAll_append put e first second

theorem putAll_singleton (e : Emitter σ) (op : Opcode) : e.putAll [op] = e.put op :=
  Attempt.andThen_ok_right _

theorem putAll_snoc (e : Emitter σ) (ops : List Opcode) (op : Opcode) :
    e.putAll (ops ++ [op]) = (e.putAll ops).andThen fun e => e.put op := by
  rw [putAll_append]
  exact congrArg _ (funext fun e => e.putAll_singleton op)

theorem putIf_eq (wanted : Bool) (op : Opcode) (e : Emitter σ) :
    e.putIf wanted op = e.putAll (if wanted then [op] else []) := by
  cases wanted with
  | false => rfl
  | true => exact (e.putAll_singleton op).symm

/-- The bits of a number from its second place on are those of its half, and the last bit
comes behind them. -/
theorem walk_succ (n length place : Nat) (e : Emitter σ) :
    e.walk n (length + 1) (place + 1) =
      (e.walk (n / 2) length place).andThen fun e =>
        (e.putIf (length ≠ 0) .intShl).andThen fun e => e.putIf (n % 2 = 1) .intInc := by
  induction place generalizing e with
  | zero =>
      rw [walk, walk, Attempt.andThen_ok, Nat.testBit_zero]
      simp only [walk, Attempt.andThen_ok_right, Nat.zero_add, ne_eq, Nat.right_eq_add]
  | succ place ih =>
      have later : ∀ e : Emitter σ, e.walk n (length + 1) (place + 1) = _ := ih
      rw [walk, walk]
      simp only [later, Attempt.andThen_assoc, Nat.testBit_succ, ne_eq, Nat.add_right_cancel_iff]

theorem bitLength_half {n : Nat} (large : 2 ≤ n) : bitLength n = bitLength (n / 2) + 1 := by
  rw [bitLength, bitLength, if_neg (by omega), if_neg (by omega), Nat.log2_def, if_pos large]

theorem walk_eq (n : Nat) (e : Emitter σ) :
    e.walk n (bitLength n) (bitLength n) = e.putAll (Program.count n) := by
  fun_induction Program.count n generalizing e with
  | case1 => rfl
  | case2 =>
      have single : bitLength 1 = 1 := by decide
      rw [single]
      rfl
  | case3 n some more ih =>
      have large : 2 ≤ n := by omega
      have half : bitLength (n / 2) ≠ 0 := by
        rw [bitLength, if_neg (by omega)]
        exact Nat.succ_ne_zero _
      rw [bitLength_half large, walk_succ, ih, putAll_append]
      refine congrArg _ (funext fun e => ?_)
      rw [putIf, if_pos (decide_eq_true half), putAll_cons]
      refine congrArg _ (funext fun e => ?_)
      simp only [putIf_eq, decide_eq_true_eq]

theorem bits_eq (e : Emitter σ) (n : UInt64) : e.bits n = e.putAll (Program.bits n) := by
  rw [bits, Program.bits, putAll_cons]
  exact congrArg _ (funext fun e => e.walk_eq n.toNat)

theorem int_eq (e : Emitter σ) (n : Int64) : e.int n = e.putAll (Program.int n) := by
  rw [int, Program.int, bits_eq]
  by_cases negative : n < 0
  · rw [if_pos negative, if_pos negative, putAll_snoc, decide_eq_true negative]
    rfl
  · rw [if_neg negative, if_neg negative, decide_eq_false negative]
    exact Attempt.andThen_ok_right _

theorem float_eq (e : Emitter σ) (x : Binary64) : e.float x = e.putAll (Program.float x) := by
  rw [float, Program.float]
  split
  · exact (e.putAll_singleton _).symm
  split
  · rw [putAll_cons]
    exact congrArg _ (funext fun e => e.putIf_eq x.isNegative .floatNeg)
  · rw [bits_eq, putAll_snoc]

theorem str_eq (e : Emitter σ) (bytes : Bytes) : e.str bytes = e.putAll (Program.str bytes) := by
  have splits (e : Emitter σ) (b : UInt8) :
      e.byte b = e.putAll (Program.bits b.toUInt64 ++ [.strAdd]) := by
    rw [byte, bits_eq, putAll_snoc]
  rw [str, Program.str, putAll_cons]
  exact congrArg _ (funext fun e => Attempt.runAll_flatMap splits e bytes)

theorem entries_eq (entries : List (Bytes × Value))
    (parts : ∀ entry ∈ entries, ∀ e : Emitter σ, e.value entry.2 = e.putAll entry.2.program)
    (e : Emitter σ) : e.entries entries = e.putAll (Value.setEntries entries) := by
  induction entries generalizing e with
  | nil => rfl
  | cons entry rest ih =>
      obtain ⟨key, v⟩ := entry
      obtain ⟨first, later⟩ := List.forall_mem_cons.1 parts
      rw [Emitter.entries, Value.setEntries, List.append_assoc, putAll_append, str_eq]
      refine congrArg _ (funext fun e => ?_)
      rw [putAll_append, first]
      refine congrArg _ (funext fun e => ?_)
      rw [putAll_cons]
      exact congrArg _ (funext (ih later))

theorem items_eq (items : List Value)
    (parts : ∀ v ∈ items, ∀ e : Emitter σ, e.value v = e.putAll v.program)
    (e : Emitter σ) : e.items items = e.putAll (Value.appendItems items) := by
  induction items generalizing e with
  | nil => rfl
  | cons v rest ih =>
      obtain ⟨first, later⟩ := List.forall_mem_cons.1 parts
      rw [Emitter.items, Value.appendItems, putAll_append, first]
      refine congrArg _ (funext fun e => ?_)
      rw [putAll_cons]
      exact congrArg _ (funext (ih later))

/-- The walk is the program, at every depth of the value. -/
theorem value_eq (v : Value) (e : Emitter σ) : e.value v = e.putAll v.program := by
  induction v using Value.ind generalizing e with
  | int n => exact e.int_eq n
  | uint n =>
      rw [value, Value.program, Program.uint, bits_eq, putAll_snoc]
  | float x => exact e.float_eq x
  | str bytes => exact e.str_eq bytes
  | bool b =>
      rw [value, Value.program, Program.bool, putAll_cons]
      exact congrArg _ (funext fun e => e.putIf_eq b .boolNeg)
  | nil => exact (e.putAll_singleton .nilNew).symm
  | object entries ih =>
      rw [value, Value.program, putAll_cons]
      exact congrArg _ (funext (entries_eq entries ih))
  | array items ih =>
      rw [value, Value.program, putAll_cons]
      exact congrArg _ (funext (items_eq items ih))

theorem map_sink_putAll (e : Emitter σ) (ops : List Opcode) :
    (e.putAll ops).map sink = OpcodeSink.putAll e.sink ops := by
  induction ops generalizing e with
  | nil => rfl
  | cons op rest ih =>
      rw [putAll_cons, OpcodeSink.putAll_cons, put]
      rcases OpcodeSink.put e.sink op with ⟨taken, _ | reason⟩
      · exact ih ⟨taken, e.emitted + 1⟩
      · rfl

theorem map_sink_value (e : Emitter σ) (v : Value) :
    (e.value v).map sink = OpcodeSink.putAll e.sink v.program := by
  rw [value_eq, map_sink_putAll]

/-- A new tape takes the whole program. -/
theorem value_new (v : Value) :
    let a := ({ sink := {} } : Emitter OpcodeTape).value v
    a.fault = none ∧ a.state.sink.toList = v.program := by
  intro a
  have passed : a.map sink = _ := (map_sink_value _ v).trans (OpcodeTape.putAll_new _)
  have tape : a.state.sink = OpcodeTape.storing {} v.program v.program.length :=
    congrArg Attempt.state passed
  refine ⟨congrArg Attempt.fault passed, ?_⟩
  rw [tape, OpcodeTape.toList_storing]
  rfl

theorem collect_eq (v : Value) : collect v = .ok v.program := by
  obtain ⟨taken, tape⟩ := value_new v
  rw [collect, Attempt.eq_ok taken, ← tape]
  rfl

end Emitter
end StackText
