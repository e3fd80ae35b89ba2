import StackText.Proofs.Codec.RoundTrip
import StackText.Proofs.Machine.Heights

/-!
# Written anew, a text needs no more stack

The program of a value gets by with the least stack that any program without copying
can have: `Value.need` is its greatest depth, and in a run without copying every value
stands at least that much below the greatest depth so far. So a value that was
read from a text without copying can be written and read again under the same
settings. With copying it may not be.
-/
namespace StackText
open Machine

/-- What decoding gives was built by a run that left it on top. -/
theorem steps_of_decode {settings : Settings} {source : Source} {v : Value}
    (h : decode settings source = .ok v) :
    ∃ n, settings.machine.steps (Alphabet.ascii.opcodes source.data) = .ok n ∧
      n.top? = some v := by
  rw [decode_eq] at h
  exact conclude_eq_ok h

theorem hasUniqueKeys_of_decode {settings : Settings} {source : Source} {v : Value}
    (h : decode settings source = .ok v) : v.hasUniqueKeys := by
  obtain ⟨n, run, top⟩ := steps_of_decode h
  obtain ⟨rest, values⟩ := values_of_top? top
  have start : ∀ w ∈ settings.machine.stack.values, w.hasUniqueKeys := by
    intro w mem
    cases mem
  have unique := uniqueKeys_after start (Alphabet.ascii.opcodes source.data)
  rw [after_of_steps_ok run, values] at unique
  exact unique v List.mem_cons_self

theorem need_le_of_decode {settings : Settings} {source : Source} {v : Value}
    (noCopy : .dup ∉ Alphabet.ascii.opcodes source.data) (h : decode settings source = .ok v) :
    v.need ≤ effectiveCapacity settings.capacity := by
  obtain ⟨n, run, top⟩ := steps_of_decode h
  exact top_need_le_capacity rfl noCopy run top

/-- Among programs without copying, the program of a value rises least: exactly to
`Value.need`, where no run can leave the value, at any height, without having risen as
far above that height. Failures that stop the run or are passed over change nothing.
Hence a text without copying is written anew without loss. -/
theorem program_stackOptimal :
    (∀ (capacity : Nat) (v : Value), v.hasUniqueKeys → v.need ≤ capacity →
      (ofCapacity capacity).greatestDepth v.program = v.need) ∧
    (∀ (capacity : Nat) (ops : List Opcode), .dup ∉ ops → ∀ (i : Nat) (v : Value),
      (((ofCapacity capacity).after ops).stack.values.reverse[i]? = some v →
        i + v.need ≤ (ofCapacity capacity).greatestDepth ops) ∧
      (((ofCapacity capacity).steps ops).state.stack.values.reverse[i]? = some v →
        i + v.need ≤
          (ofCapacity capacity).greatestDepth ((ofCapacity capacity).reached ops))) ∧
    ∀ (settings : Settings) (source : Source) (v : Value),
      .dup ∉ Alphabet.ascii.opcodes source.data → decode settings source = .ok v →
        ∃ text, encodeBytes settings v = .ok text ∧ decodeBytes settings text = .ok v := by
  refine ⟨?_, ?_, ?_⟩
  · intro capacity v unique fits
    exact (Value.program_replaces unique).rises_fresh fits
  · intro capacity ops noCopy i v
    constructor
    · exact height_add_need_le rfl noCopy
    · intro stands
      have noneReached : .dup ∉ (ofCapacity capacity).reached ops := by
        intro mem
        exact noCopy ((reached_isPrefix _ ops).subset mem)
      rw [← after_reached] at stands
      exact height_add_need_le rfl noneReached stands
  · intro settings source v noCopy read
    refine ⟨_, encodeBytes_eq settings v, ?_⟩
    rw [decodeBytes_textFrom]
    exact Value.conclude_program_of_fits (hasUniqueKeys_of_decode read)
      (need_le_of_decode noCopy read)

/-- The first shift fails and takes the integer off; on another capacity a text with a
line break is read and written anew. -/
theorem program_stackOptimal_array :
    (ofCapacity 2).greatestDepth (Value.array [.nil]).program = 2 ∧
      0 + (Value.array [.nil]).need ≤
        (ofCapacity 2).greatestDepth [.nilNew, .intShl, .arrNew, .nilNew, .arrAdd] ∧
      ∃ text, encodeBytes { capacity := 2 } (.array [.nil]) = .ok text ∧
        decodeBytes { capacity := 2 } text = .ok (.array [.nil]) := by
  obtain ⟨rises, stands, recodes⟩ := program_stackOptimal
  have read : decode { capacity := 2 } (.ofBytes [64, 46, 10, 115]) = .ok (.array [.nil]) := by
    rw [decode_eq]
    rfl
  exact ⟨rises 2 (.array [.nil]) rfl (by decide),
    (stands 2 [.nilNew, .intShl, .arrNew, .nilNew, .arrAdd] (by decide) 0 (.array [.nil])).1 rfl,
    recodes { capacity := 2 } (.ofBytes [64, 46, 10, 115]) (.array [.nil]) (by decide) read⟩

/-- With copying, a value can need more than the run that built it had. -/
example :
    let v : Value := .array [.array [], .array [.array []]]
    (ofCapacity 2).conclude [.arrNew, .dup, .arrAdd, .dup, .arrAdd] none = .ok v ∧ 2 < v.need :=
  ⟨rfl, by decide⟩

end StackText
