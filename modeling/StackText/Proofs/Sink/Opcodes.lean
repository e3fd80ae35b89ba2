import StackText.Sink.Opcodes
import StackText.Proofs.Attempt

/-!
# Handing programs to a tape that refuses calls

A tape takes the opcodes that it is handed up to the first call that it refuses, and no
call is made behind that one. So it comes down to where among the calls to come the first
refusal stands: `OpcodeTape.putAll_taken` if it is behind the opcodes, and
`OpcodeTape.putAll_refused` if it is not.
-/
namespace StackText

section
variable {σ : Type} [OpcodeSink σ]

theorem OpcodeSink.putAll_nil (sink : σ) : putAll sink [] = .ok sink := rfl

theorem OpcodeSink.putAll_cons (sink : σ) (op : Opcode) (rest : List Opcode) :
    putAll sink (op :: rest) = (put sink op).andThen fun sink => putAll sink rest := rfl

theorem OpcodeSink.putAll_append (sink : σ) (first second : List Opcode) :
    putAll sink (first ++ second) = (putAll sink first).andThen fun sink => putAll sink second :=
  Attempt.runAll_append put sink first second

end

namespace OpcodeTape

/-- What a tape is after so many more calls that have left these opcodes on it. -/
def storing (tape : OpcodeTape) (ops : List Opcode) (made : Nat) : OpcodeTape :=
  { tape with stored := tape.stored ++ ops.toArray, calls := tape.calls + made }

@[simp] theorem toList_storing (tape : OpcodeTape) (ops : List Opcode) (made : Nat) :
    (tape.storing ops made).toList = tape.toList ++ ops := by
  simp [storing, toList]

theorem storing_nil (tape : OpcodeTape) : tape.storing [] 0 = tape := by
  simp [storing]

theorem storing_storing (tape : OpcodeTape) (xs ys : List Opcode) (m n : Nat) :
    (tape.storing xs m).storing ys n = tape.storing (xs ++ ys) (m + n) := by
  simp [storing, Nat.add_assoc]

theorem put_taken {tape : OpcodeTape} (free : tape.refuses tape.calls = false) (op : Opcode) :
    OpcodeSink.put tape op = .ok (tape.storing [op] 1) := by
  change put tape op = _
  rw [put, if_neg (by simp [free])]
  simp [storing]

theorem put_refused {tape : OpcodeTape} (refused : tape.refuses tape.calls = true)
    (op : Opcode) :
    OpcodeSink.put tape op = .fail (tape.storing [] 1) (tape.reason tape.calls) := by
  change put tape op = _
  rw [put, if_pos refused]
  simp [storing]

/-- Whether the tape refuses the call that comes behind so many others. -/
def Refuses (tape : OpcodeTape) (others : Nat) : Prop :=
  tape.refuses (tape.calls + others) = true

theorem not_refuses {tape : OpcodeTape} {others : Nat} (free : ¬ tape.Refuses others) :
    tape.refuses (tape.calls + others) = false :=
  Bool.eq_false_iff.2 free

theorem refuses_storing (tape : OpcodeTape) (ops : List Opcode) (made others : Nat) :
    (tape.storing ops made).Refuses others ↔ tape.Refuses (made + others) := by
  rw [Refuses, Refuses, ← Nat.add_assoc]
  rfl

/-- Of so many calls to come, either none is refused or one is the first that is. -/
theorem free_or_refused (tape : OpcodeTape) (n : Nat) :
    (∀ k < n, ¬ tape.Refuses k) ∨
      ∃ k < n, tape.Refuses k ∧ ∀ j < k, ¬ tape.Refuses j := by
  induction n with
  | zero => exact .inl fun _ bound => nomatch bound
  | succ n ih =>
      rcases ih with free | ⟨k, bound, first⟩
      · by_cases last : tape.Refuses n
        · exact .inr ⟨n, Nat.lt_succ_self n, last, free⟩
        · refine .inl fun k bound => ?_
          rcases Nat.lt_succ_iff_lt_or_eq.1 bound with before | rfl
          · exact free k before
          · exact last
      · exact .inr ⟨k, Nat.lt_succ_of_lt bound, first⟩

section
variable {tape : OpcodeTape} {ops : List Opcode}

theorem putAll_taken (free : ∀ k < ops.length, ¬ tape.Refuses k) :
    OpcodeSink.putAll tape ops = .ok (tape.storing ops ops.length) := by
  induction ops generalizing tape with
  | nil => exact congrArg Attempt.ok tape.storing_nil.symm
  | cons op rest ih =>
      have later : ∀ k < rest.length, ¬ (tape.storing [op] 1).Refuses k := by
        intro k bound
        rw [refuses_storing, Nat.add_comm]
        exact free (k + 1) (Nat.succ_lt_succ bound)
      rw [OpcodeSink.putAll_cons, put_taken (not_refuses (free 0 (Nat.zero_lt_succ _))),
        Attempt.andThen_ok, ih later, storing_storing, List.length_cons, Nat.add_comm]
      rfl

/-- A new tape refuses nothing. -/
theorem putAll_new (ops : List Opcode) :
    OpcodeSink.putAll ({} : OpcodeTape) ops = .ok (storing {} ops ops.length) :=
  putAll_taken fun _ _ => nofun

theorem putAll_refused {k : Nat} (bound : k < ops.length) (refused : tape.Refuses k)
    (earlier : ∀ j < k, ¬ tape.Refuses j) :
    OpcodeSink.putAll tape ops =
      .fail (tape.storing (ops.take k) (k + 1)) (tape.reason (tape.calls + k)) := by
  induction ops generalizing tape k with
  | nil => cases bound
  | cons op rest ih =>
      cases k with
      | zero =>
          rw [OpcodeSink.putAll_cons, put_refused refused, Attempt.andThen_fail]
          rfl
      | succ k =>
          have next : (tape.storing [op] 1).Refuses k := by
            rwa [refuses_storing, Nat.add_comm]
          have free : ∀ j < k, ¬ (tape.storing [op] 1).Refuses j := by
            intro j before
            rw [refuses_storing, Nat.add_comm]
            exact earlier (j + 1) (Nat.succ_lt_succ before)
          rw [OpcodeSink.putAll_cons, put_taken (not_refuses (earlier 0 (Nat.zero_lt_succ _))),
            Attempt.andThen_ok, ih (Nat.lt_of_succ_lt_succ bound) next free, storing_storing,
            List.take_succ_cons, Nat.add_comm 1, List.singleton_append]
          simp [storing, Nat.add_assoc, Nat.add_comm 1]

end
end OpcodeTape
end StackText
