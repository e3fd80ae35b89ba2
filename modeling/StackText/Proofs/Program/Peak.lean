import StackText.Proofs.Machine.Run

/-!
# Programs with an exact peak

`Replaces ops peak xs ys` says all there is to say about a program that is meant to
succeed: with `xs` on top of any stack it puts `ys` in their place, the stack rises to
exactly `peak` values above what lies below `xs`, and if there is no room for that
many, the program ends in an overflow and in no other failure. Such programs are put
together by appending, where the greater peak counts, and by framing, which lifts the
peak by the values that stay below.
-/
namespace StackText
open Machine

structure Replaces (ops : List Opcode) (peak : Nat) (xs ys : List Value) : Prop where
  runs : ∀ {m : Machine} {rest : List Value}, m.stack.values = xs ++ rest →
    rest.length + peak ≤ m.capacity → m.steps ops = .ok (ahead ops.length (m.holding (ys ++ rest)))
  rises : ∀ {m : Machine} {rest : List Value}, m.stack.values = xs ++ rest →
    rest.length + peak ≤ m.capacity → m.greatestDepth ops = rest.length + peak
  overflows : ∀ {m : Machine} {rest : List Value}, m.stack.values = xs ++ rest →
    m.depth ≤ m.capacity → m.capacity < rest.length + peak →
    ∃ op, (m.steps ops).fault = some (.overflow op m.capacity)

namespace Replaces

theorem depth_of_values {m : Machine} {xs rest : List Value} (h : m.stack.values = xs ++ rest) :
    m.depth = xs.length + rest.length :=
  (congrArg List.length h).trans List.length_append

/-- The empty program leaves what it finds. -/
theorem nil (xs : List Value) : Replaces [] xs.length xs xs where
  runs h _ := congrArg Attempt.ok (by rw [← h]; rfl)
  rises h _ := (depth_of_values h).trans (Nat.add_comm _ _)
  overflows h fits short := by
    rw [depth_of_values h] at fits
    omega

/-- One opcode with suitable operands. An overflow is possible only if there are none. -/
theorem single {op : Opcode} {v : Value} (xs : List Value)
    (makes : ∀ rest, op.Makes (xs ++ rest) v rest) : Replaces [op] (max xs.length 1) xs [v] where
  runs {m rest} h room := by
    rw [steps_cons, step_of_makes (h ▸ makes rest), if_pos (by omega)]
    rfl
  rises {m rest} h room := by
    have step : m.step op = .ok (m.advanced (v :: rest)) := by
      rw [step_of_makes (h ▸ makes rest), if_pos (by omega)]
    have depth : (m.advanced (v :: rest)).depth = rest.length + 1 := rfl
    simp only [greatestDepth, step, Attempt.state_ok, depth, depth_of_values h]
    omega
  overflows {m rest} h fits short := by
    rw [depth_of_values h] at fits
    rw [steps_cons, step_of_makes (h ▸ makes rest), if_neg (by omega)]
    exact ⟨op, rfl⟩

theorem append {p q : List Opcode} {a b : Nat} {xs ys zs : List Value}
    (first : Replaces p a xs ys) (second : Replaces q b ys zs) :
    Replaces (p ++ q) (max a b) xs zs where
  runs {m rest} h room := by
    have run := first.runs h (by omega)
    have values : (ahead p.length (m.holding (ys ++ rest))).stack.values = ys ++ rest := rfl
    have later := second.runs values (Nat.le_trans (by omega) room)
    rw [steps_append, run, Attempt.andThen_ok, later, List.length_append, ← ahead_ahead]
    rfl
  rises {m rest} h room := by
    have after := after_of_steps_ok (first.runs h (by omega))
    have values : (ahead p.length (m.holding (ys ++ rest))).stack.values = ys ++ rest := rfl
    have later := second.rises values (Nat.le_trans (by omega) room)
    rw [greatestDepth_append, after, first.rises h (by omega), later]
    omega
  overflows {m rest} h fits short := by
    rw [steps_append]
    by_cases room : rest.length + a ≤ m.capacity
    · have run := first.runs h room
      have depth := depth_after_le_greatestDepth m p
      rw [after_of_steps_ok run, first.rises h room] at depth
      rw [run, Attempt.andThen_ok]
      have values : (ahead p.length (m.holding (ys ++ rest))).stack.values = ys ++ rest := rfl
      exact second.overflows values (Nat.le_trans depth room)
        (show m.capacity < rest.length + b by omega)
    · obtain ⟨op, fault⟩ := first.overflows h fits (by omega)
      rw [Attempt.andThen_of_fault fault]
      exact ⟨op, fault⟩

/-- What lies below the operands stays and lifts the peak. -/
theorem frame {ops : List Opcode} {peak : Nat} {xs ys : List Value} (h : Replaces ops peak xs ys)
    (below : List Value) : Replaces ops (peak + below.length) (xs ++ below) (ys ++ below) where
  runs {m rest} values room := by
    rw [List.append_assoc] at values ⊢
    exact h.runs values (by rw [List.length_append]; omega)
  rises {m rest} values room := by
    rw [List.append_assoc] at values
    rw [h.rises values (by rw [List.length_append]; omega), List.length_append]
    omega
  overflows {m rest} values fits short := by
    rw [List.append_assoc] at values
    exact h.overflows values fits (by rw [List.length_append]; omega)

section
variable {ops : List Opcode} {peak capacity : Nat} {ys : List Value} (h : Replaces ops peak [] ys)
include h

/-- A fresh machine has nothing below the operands. -/
theorem runs_fresh (fits : peak ≤ capacity) :
    (ofCapacity capacity).steps ops = .ok (ahead ops.length ((ofCapacity capacity).holding ys)) := by
  have empty : (ofCapacity capacity).stack.values = [] ++ [] := rfl
  have run := h.runs empty (by rwa [List.length_nil, Nat.zero_add])
  rwa [List.append_nil] at run

theorem rises_fresh (fits : peak ≤ capacity) : (ofCapacity capacity).greatestDepth ops = peak := by
  have empty : (ofCapacity capacity).stack.values = [] ++ [] := rfl
  have rises := h.rises empty (by rwa [List.length_nil, Nat.zero_add])
  rwa [List.length_nil, Nat.zero_add] at rises

theorem overflows_fresh (short : capacity < peak) :
    ∃ op, ((ofCapacity capacity).steps ops).fault = some (.overflow op capacity) := by
  have empty : (ofCapacity capacity).stack.values = [] ++ [] := rfl
  exact h.overflows empty (Nat.zero_le _) (by rwa [List.length_nil, Nat.zero_add])

end

end Replaces
end StackText
