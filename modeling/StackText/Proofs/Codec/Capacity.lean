import StackText.Proofs.Codec.Decoding
import StackText.Proofs.Machine.Capacity

/-!
# Room for the peak is room enough

On a fresh machine a program overflows if and only if the capacity is below its peak, at
the first opcode whose result finds no room. With the capacity at the peak or above it,
nothing about the run depends on it any more. So a greater capacity can turn an overflow
into something else, and that is all that it can do to a run or to what is decoded.
-/
namespace StackText
namespace Machine

variable {ops : List Opcode} {capacity : Nat}

theorem peak_ofCapacity (capacity : Nat) (ops : List Opcode) :
    (ofCapacity capacity).peak ops = fresh.peak ops :=
  peak_withCapacity capacity fresh ops

theorem steps_ofCapacity (room : fresh.peak ops ≤ capacity) :
    (ofCapacity capacity).steps ops = (fresh.stepsUnbounded ops).map (withCapacity capacity) := by
  have room : (ofCapacity capacity).peak ops ≤ (ofCapacity capacity).capacity := by
    rwa [peak_ofCapacity]
  rw [steps_eq_of_peak_le room]
  exact stepsUnbounded_withCapacity capacity capacity fresh ops

theorem overflowsAt_ofCapacity (short : capacity < fresh.peak ops) :
    ∃ before op, (ofCapacity capacity).OverflowsAt ops before op := by
  apply exists_overflowsAt
  · exact Nat.zero_le capacity
  · rwa [peak_ofCapacity]

theorem overflows_iff_lt_peak (ops : List Opcode) (capacity : Nat) :
    (∃ op c, ((ofCapacity capacity).steps ops).fault = some (.overflow op c)) ↔
      capacity < fresh.peak ops := by
  constructor
  · rintro ⟨op, c, fault⟩
    refine Nat.lt_of_not_le fun enough => ?_
    rw [steps_ofCapacity enough] at fault
    exact stepsUnbounded_not_overflow fresh ops op c fault
  · intro short
    obtain ⟨before, op, h⟩ := overflowsAt_ofCapacity short
    exact ⟨op, capacity, by rw [h.overflows]; rfl⟩

/-- Unless it overflows, a run is the same on every greater capacity. -/
theorem steps_ofCapacity_of_le {larger : Nat} (more : capacity ≤ larger)
    (noOverflow : ∀ op c, ((ofCapacity capacity).steps ops).fault ≠ some (.overflow op c)) :
    (ofCapacity larger).steps ops =
      ((ofCapacity capacity).steps ops).map (withCapacity larger) := by
  have room : fresh.peak ops ≤ capacity := by
    refine Nat.le_of_not_lt fun short => ?_
    obtain ⟨op, c, fault⟩ := (overflows_iff_lt_peak ops capacity).2 short
    exact noOverflow op c fault
  rw [steps_ofCapacity room, steps_ofCapacity (Nat.le_trans room more)]
  rfl

end Machine
open Machine

theorem machine_of_capacity_pos {settings : Settings} (positive : 0 < settings.capacity) :
    settings.machine = ofCapacity settings.capacity.toNat := by
  rw [Settings.machine, ofRequest, effectiveCapacity, if_neg (Int.not_le.2 positive)]

theorem conclude_map_withCapacity {m n : Machine} {ops : List Opcode} {capacity : Nat}
    (h : n.steps ops = (m.steps ops).map (withCapacity capacity)) (ending : Option IoError) :
    n.conclude ops ending = m.conclude ops ending := by
  unfold conclude
  rw [h]
  rfl

theorem decode_of_capacity_le {settings : Settings} {source : Source} {larger : Int}
    (positive : 0 < settings.capacity) (more : settings.capacity ≤ larger)
    (noOverflow : ∀ op c, decode settings source ≠ .error (.run (.trap (.overflow op c)))) :
    decode { settings with capacity := larger } source = decode settings source := by
  have largerPositive : 0 < ({ settings with capacity := larger } : Settings).capacity :=
    Int.lt_of_lt_of_le positive more
  have noTrap : ∀ op c, ((ofCapacity settings.capacity.toNat).steps
      (Alphabet.ascii.opcodes source.data)).fault ≠ some (.overflow op c) := by
    intro op c fault
    apply noOverflow op c
    rw [decode_eq, machine_of_capacity_pos positive]
    unfold conclude
    rw [fault]
  rw [decode_eq, decode_eq, machine_of_capacity_pos positive,
    machine_of_capacity_pos largerPositive]
  exact conclude_map_withCapacity
    (steps_ofCapacity_of_le (Int.toNat_le_toNat more) noTrap) source.ending

/-- A fresh machine overflows if and only if its capacity is below the peak of the run
without bound, and at the first opcode that would raise the stack beyond the capacity.
Otherwise its run is that one, whatever the capacity. Hence a greater capacity changes
nothing but overflows, neither in a run nor in what is decoded. -/
theorem overflow_threshold (ops : List Opcode) (capacity : Nat) :
    (∀ op c, (fresh.stepsUnbounded ops).fault ≠ some (.overflow op c)) ∧
      ((∃ op c, ((ofCapacity capacity).steps ops).fault = some (.overflow op c)) ↔
        capacity < fresh.peak ops) ∧
      (capacity < fresh.peak ops →
        ∃ before op, (ofCapacity capacity).OverflowsAt ops before op) ∧
      (fresh.peak ops ≤ capacity →
        (ofCapacity capacity).steps ops =
          (fresh.stepsUnbounded ops).map (withCapacity capacity)) ∧
      (∀ larger, capacity ≤ larger →
        (∀ op c, ((ofCapacity capacity).steps ops).fault ≠ some (.overflow op c)) →
          (ofCapacity larger).steps ops =
            ((ofCapacity capacity).steps ops).map (withCapacity larger)) ∧
      ∀ (settings : Settings) (source : Source) (larger : Int),
        0 < settings.capacity → settings.capacity ≤ larger →
          (∀ op c, decode settings source ≠ .error (.run (.trap (.overflow op c)))) →
            decode { settings with capacity := larger } source = decode settings source := by
  refine ⟨?_, overflows_iff_lt_peak ops capacity, ?_, ?_, ?_, ?_⟩
  · exact stepsUnbounded_not_overflow fresh ops
  · exact overflowsAt_ofCapacity
  · exact steps_ofCapacity
  · intro larger more noOverflow
    exact steps_ofCapacity_of_le more noOverflow
  · intro settings source larger positive more noOverflow
    exact decode_of_capacity_le positive more noOverflow

/-- With room for two, copying overflows and hides that `nil` is no array. With room for
three that comes out, and more room changes nothing. -/
theorem overflow_threshold_hidden :
    let program : List Opcode := [.arrNew, .nilNew, .dup, .arrAdd]
    fresh.peak program = 3 ∧
      (∃ before op, (ofCapacity 2).OverflowsAt program before op) ∧
      ((ofCapacity 3).steps program).fault = some (.mismatch .arrAdd .array .nil) ∧
      (ofCapacity 4).steps program = ((ofCapacity 3).steps program).map (withCapacity 4) ∧
      decode { capacity := 7 } (.ofBytes [64, 46, 115]) = .ok (.array [.nil]) := by
  intro program
  obtain ⟨-, -, short, -, -, -⟩ := overflow_threshold program 2
  obtain ⟨-, -, -, -, more, decoded⟩ := overflow_threshold program 3
  have stopped : ((ofCapacity 3).steps program).fault = some (.mismatch .arrAdd .array .nil) := rfl
  have read : decode { capacity := 2 } (.ofBytes [64, 46, 115]) = .ok (.array [.nil]) := by
    rw [decode_eq]
    rfl
  have noTrap : ∀ op c, decode { capacity := 2 } (.ofBytes [64, 46, 115]) ≠
      .error (.run (.trap (.overflow op c))) := by
    rw [read]
    nofun
  refine ⟨rfl, short (by decide), stopped, more 4 (by decide) ?_, ?_⟩
  · rw [stopped]
    nofun
  · exact (decoded { capacity := 2 } _ 7 (by decide) (by decide) noTrap).trans read

end StackText
