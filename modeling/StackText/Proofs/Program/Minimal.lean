import Mathlib.Algebra.Order.Ring.Nat
import Mathlib.Data.Nat.Size
import StackText.Proofs.Prettify.Transparency
import StackText.Proofs.Program.Values
import StackText.Proofs.Sink.Emitter

/-!
# No shorter program counts as far

A counting program is one of increments and doublings, on top of a zero. The program of a
number spends one increment on each bit that is set and one doubling on each bit after the
first, and no counting program does with less. For its length is a potential: an
increment lifts it by at most one, carries included, and so does a doubling
(`length_count_tally_le`). Nor does it help to go beyond 2 ^ 64 and wrap around, since the
program of what is left of a number has no more bits to spend on (`length_count_mod_le`).
-/
namespace StackText

theorem Replaces.run_eq {ops : List Opcode} {peak : Nat} {v : Value} (h : Replaces ops peak [] [v])
    (fits : peak ≤ Machine.defaultCapacity) : run ops = .ok v := by
  have ran : Machine.fresh.steps ops = _ := h.runs_fresh fits
  rw [StackText.run_eq, ran]
  rfl

namespace Program

/-- Increments and doublings and nothing else. -/
def Counts (ops : List Opcode) : Prop := ∀ op ∈ ops, op = .intInc ∨ op = .intShl

/-- What increments and doublings make of a number if there is nothing to wrap around. -/
def tally (n : Nat) (ops : List Opcode) : Nat :=
  ops.foldl (fun n op => if op = .intInc then n + 1 else n + n) n

theorem count_zero : count 0 = [] := by
  rw [count, if_pos rfl]

theorem count_one : count 1 = [.intInc] := by
  rw [count, if_neg Nat.one_ne_zero, if_pos rfl]

/-- One more bit behind those of a number. -/
theorem count_bit {n b : Nat} (positive : 0 < n) (bit : b < 2) :
    count (2 * n + b) = count n ++ .intShl :: (if b = 1 then [.intInc] else []) := by
  have half : (2 * n + b) / 2 = n := by omega
  have last : (2 * n + b) % 2 = b := by omega
  rw [count, if_neg (by omega), if_neg (by omega), half, last]

/-- Every number is none, one, or a positive number with one more bit behind it. -/
theorem bit_cases {motive : Nat → Prop} (zero : motive 0) (one : motive 1)
    (bit : ∀ n b, 0 < n → b < 2 → motive n → motive (2 * n + b)) (n : Nat) : motive n := by
  induction n using Nat.strongRecOn with
  | ind n ih =>
      rcases Nat.lt_or_ge n 2 with small | large
      · obtain rfl | rfl : n = 0 ∨ n = 1 := by omega
        · exact zero
        · exact one
      · have split : 2 * (n / 2) + n % 2 = n := Nat.div_add_mod n 2
        rw [← split]
        exact bit _ _ (by omega) (by omega) (ih (n / 2) (by omega))

theorem counts_count (n : Nat) : Counts (count n) := by
  induction n using bit_cases with
  | zero => simp [count_zero, Counts]
  | one => simp [count_one, Counts]
  | bit n b positive bit ih =>
      rw [count_bit positive bit]
      intro op mem
      rcases List.mem_append.1 mem with front | last
      · exact ih op front
      · split at last
        · simpa [or_comm] using last
        · exact .inr (List.mem_singleton.1 last)

/-- An increment for each bit that is set. -/
theorem count_intInc_count (n : Nat) : (count n).count .intInc = n.bits.count true := by
  induction n using bit_cases with
  | zero => simp [count_zero]
  | one => simp [count_one]
  | bit n b positive bit ih =>
      rw [count_bit positive bit, List.count_append, ih]
      obtain rfl | rfl : b = 0 ∨ b = 1 := by omega
      · simp [Nat.bit0_bits n (by omega)]
      · simp [Nat.bit1_bits]

/-- A doubling for each bit after the first. -/
theorem count_intShl_count (n : Nat) : (count n).count .intShl = n.size - 1 := by
  induction n using bit_cases with
  | zero => simp [count_zero]
  | one => simp [count_one]
  | bit n b positive bit ih =>
      have sized : 0 < n.size := Nat.size_pos.2 positive
      rw [count_bit positive bit, List.count_append, ih, ← Nat.size_eq_bits_len,
        ← Nat.size_eq_bits_len] at *
      obtain rfl | rfl : b = 0 ∨ b = 1 := by omega
      · simp [Nat.bit0_bits n (by omega)]
        omega
      · simp [Nat.bit1_bits]
        omega

theorem length_count_bit {n b : Nat} (positive : 0 < n) (bit : b < 2) :
    (count (2 * n + b)).length = (count n).length + 1 + b := by
  rw [count_bit positive bit, List.length_append, List.length_cons]
  obtain rfl | rfl : b = 0 ∨ b = 1 := by omega
  · rfl
  · rfl

/-- An increment changes every bit that it carries through, but each carry takes a bit that
was set away. -/
theorem length_count_succ_le (n : Nat) : (count (n + 1)).length ≤ (count n).length + 1 := by
  induction n using bit_cases with
  | zero => simp [count_zero, count_one]
  | one => simp [count_one, count_bit (n := 1) (b := 0) (by omega) (by omega)]
  | bit n b positive bit ih =>
      obtain rfl | rfl : b = 0 ∨ b = 1 := by omega
      · have before := length_count_bit positive (b := 0) (by omega)
        have after := length_count_bit positive (b := 1) (by omega)
        exact Nat.le_of_eq (after.trans (congrArg (· + 1) before.symm))
      · have carried : 2 * n + 1 + 1 = 2 * (n + 1) + 0 := by omega
        have before := length_count_bit positive (b := 1) (by omega)
        have after := length_count_bit (n := n + 1) (b := 0) (by omega) (by omega)
        rw [carried]
        omega

theorem length_count_double_le (n : Nat) : (count (n + n)).length ≤ (count n).length + 1 := by
  rcases Nat.eq_zero_or_pos n with rfl | positive
  · simp [count_zero]
  · have doubled : n + n = 2 * n + 0 := by omega
    have after := length_count_bit positive (b := 0) (by omega)
    rw [← doubled] at after
    exact Nat.le_of_eq after

/-- What is left of a number modulo a power of two takes no more opcodes than the number. -/
theorem length_count_mod_le (n k : Nat) : (count (n % 2 ^ k)).length ≤ (count n).length := by
  induction n using bit_cases generalizing k with
  | zero => simp
  | one =>
      cases k with
      | zero => simp [count_zero]
      | succ k =>
          have same : 1 % 2 ^ (k + 1) = 1 := Nat.mod_eq_of_lt (Nat.one_lt_two_pow k.succ_ne_zero)
          exact Nat.le_of_eq (congrArg (fun m => (count m).length) same)
  | bit n b positive bit ih =>
      cases k with
      | zero => simp [Nat.mod_one, count_zero]
      | succ k =>
          have rest : (2 * n + b) % 2 ^ (k + 1) = 2 * (n % 2 ^ k) + b := by
            have low : (2 * n + b) % 2 = b := by omega
            have high : (2 * n + b) / 2 = n := by omega
            rw [Nat.pow_succ', Nat.mod_mul, low, high, Nat.add_comm]
          have shorter := ih k
          rw [rest, length_count_bit positive bit]
          rcases Nat.eq_zero_or_pos (n % 2 ^ k) with none | some
          · rw [none]
            obtain rfl | rfl : b = 0 ∨ b = 1 := by omega
            · simp [count_zero]
            · simp [count_one]
          · rw [length_count_bit some bit]
            omega

theorem length_count_tally_le (n : Nat) (ops : List Opcode) :
    (count (tally n ops)).length ≤ (count n).length + ops.length := by
  induction ops generalizing n with
  | nil => exact Nat.le_refl _
  | cons op rest ih =>
      rw [tally, List.foldl_cons, List.length_cons]
      refine Nat.le_trans (ih _) ?_
      split
      · have := length_count_succ_le n
        omega
      · have := length_count_double_le n
        omega

/-- On the stack, the tally is kept modulo 2 ^ 64. -/
theorem tally_replaces (n : Nat) {ops : List Opcode} (counts : Counts ops) :
    Replaces ops 1 [.int (.ofNat n)] [.int (.ofNat (tally n ops))] := by
  induction ops generalizing n with
  | nil => exact .nil [.int (.ofNat n)]
  | cons op rest ih =>
      obtain ⟨first, later⟩ := List.forall_mem_cons.1 counts
      rcases first with rfl | rfl
      · have added : Replaces [.intInc] 1 [.int (.ofNat n)] [.int (.ofNat (n + 1))] := by
          rw [Int64.ofNat_add]
          exact .unary fun _ => .intInc
        exact added.append (ih (n + 1) later)
      · have doubled : Replaces [.intShl] 1 [.int (.ofNat n)] [.int (.ofNat (n + n))] := by
          rw [Int64.ofNat_add]
          exact .unary fun _ => .intShl
        exact doubled.append (ih (n + n) later)

theorem run_counting {ops : List Opcode} (counts : Counts ops) :
    run (.intNew :: ops) = .ok (.int (.ofNat (tally 0 ops))) := by
  have zero : Replaces [.intNew] 1 [] [.int (.ofNat 0)] := .push fun _ => .intNew
  exact (zero.append (tally_replaces 0 counts)).run_eq (by decide)

theorem run_bits (b : UInt64) : run (bits b) = .ok (.int b.toInt64) :=
  (bits_replaces b).run_eq (by decide)

/-- Words are equal if their bits are. -/
theorem mod_eq_of_ofNat_eq {n : Nat} {b : UInt64} (h : Int64.ofNat n = b.toInt64) :
    n % 2 ^ 64 = b.toNat := by
  rw [← UInt64.toInt64_ofNat'] at h
  have word := congrArg Int64.toUInt64 h
  rw [UInt64.toUInt64_toInt64, UInt64.toUInt64_toInt64] at word
  rw [← word, UInt64.toNat_ofNat']

/-- Whatever counts to a word, wrapping around on the way or not, is no shorter than the
program of its bits. -/
theorem length_count_le {ops : List Opcode} {b : UInt64} (counts : Counts ops)
    (reaches : run (.intNew :: ops) = .ok (.int b.toInt64)) :
    (count b.toNat).length ≤ ops.length := by
  have word : Int64.ofNat (tally 0 ops) = b.toInt64 := by
    rw [run_counting counts] at reaches
    injection reaches with same
    injection same
  have left : tally 0 ops % 2 ^ 64 = b.toNat := mod_eq_of_ofNat_eq word
  calc (count b.toNat).length
      = (count (tally 0 ops % 2 ^ 64)).length := by rw [left]
    _ ≤ (count (tally 0 ops)).length := length_count_mod_le _ 64
    _ ≤ (count 0).length + ops.length := length_count_tally_le 0 ops
    _ = ops.length := by rw [count_zero, List.length_nil, Nat.zero_add]

/-- For an unsigned number a counting program is emitted, with an increment for each bit
that is set and a doubling for each bit after the first. It counts to the number's bits, and
no counting program that does is shorter. -/
theorem uint_minimal (b : UInt64) :
    ∃ ops, Emitter.collect (.uint b) = .ok (.intNew :: ops ++ [.intToUint]) ∧ Counts ops ∧
      ops.count .intInc = b.toNat.bits.count true ∧ ops.count .intShl = b.toNat.size - 1 ∧
      run (.intNew :: ops) = .ok (.int b.toInt64) ∧
      ∀ others, Counts others → run (.intNew :: others) = .ok (.int b.toInt64) →
        ops.length ≤ others.length := by
  have emitted : Emitter.collect (.uint b) = .ok (.intNew :: count b.toNat ++ [.intToUint]) := by
    rw [Emitter.collect_eq, Value.program, uint, bits]
  refine ⟨count b.toNat, emitted, counts_count _, count_intInc_count _, count_intShl_count _,
    run_bits b, fun others counts reaches => ?_⟩
  exact length_count_le counts reaches

/-- Counting to one by way of 2 ^ 64 takes 66 opcodes. -/
theorem uint_minimal_around :
    Counts (.intInc :: .replicate 64 .intShl ++ [.intInc]) ∧
      run (.intNew :: (.intInc :: .replicate 64 .intShl ++ [.intInc])) = .ok (.int 1) ∧
      ∃ ops, Emitter.collect (.uint 1) = .ok (.intNew :: ops ++ [.intToUint]) ∧
        ops.length ≤ 66 := by
  have counts : Counts (.intInc :: .replicate 64 .intShl ++ [.intInc]) := by
    simp [Counts]
  have wraps : run (.intNew :: (.intInc :: .replicate 64 .intShl ++ [.intInc])) = .ok (.int 1) := by
    have word : Int64.ofNat (tally 0 (.intInc :: .replicate 64 .intShl ++ [.intInc])) = 1 := by
      decide
    rw [run_counting counts, word]
  obtain ⟨ops, emitted, -, -, -, -, least⟩ := uint_minimal 1
  exact ⟨counts, wraps, ops, emitted, least _ counts wraps⟩

end Program
end StackText
