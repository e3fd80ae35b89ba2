import StackText.Prettify.Sink
import StackText.Proofs.Sink.Opcodes

/-!
# Handing programs to a prettifier

A prettifier passes on what it is handed opcode by opcode, with no view of the whole. Whatever
the sink behind it refuses, what it passes on is the prettified program
(`PrettySink.map_sink_putAll`), and if nothing is refused, it has reported the expansions in
that program, in order (`PrettySink.events_of_putAll`). A new tape refuses nothing, so a
prettifier in front of it leaves the prettified program there (`PrettySink.collectTraced_eq`).
-/
namespace StackText
namespace PrettySink

theorem events_report {σ : Type} (p : PrettySink σ) (op : Opcode) :
    (p.report op).events.toList =
      p.events.toList ++ if p.mode.expands p.last op then [.expanding p.last op] else [] := by
  unfold report
  split
  · exact Array.toList_push
  · exact (List.append_nil _).symm

section
variable {σ : Type} [OpcodeSink σ] {p q : PrettySink σ} {op : Opcode} {ops : List Opcode}

/-- Whatever the sink behind it refuses, a prettifier hands it the prettified program. -/
theorem map_sink_putAll (p : PrettySink σ) (ops : List Opcode) :
    (OpcodeSink.putAll p ops).map sink =
      OpcodeSink.putAll p.sink (prettifyAfter p.mode p.last ops) := by
  induction ops generalizing p with
  | nil => rfl
  | cons op rest ih =>
      rw [OpcodeSink.putAll_cons, prettifyAfter, OpcodeSink.putAll_append]
      change ((PrettySink.put p op).andThen _).map sink = _
      rw [put_eq]
      rcases OpcodeSink.putAll p.sink (p.mode.expansion p.last op) with ⟨taken, _ | reason⟩
      · exact ih { p with sink := taken, last := some op, events := (p.report op).events }
      · rfl

/-- A request that is taken is the one to look back to. -/
theorem kept_of_put (put : p.put op = .ok q) :
    q.mode = p.mode ∧ q.last = some op ∧ q.events = (p.report op).events := by
  rw [put_eq, Attempt.andThen_eq_ok_iff] at put
  obtain ⟨passed, expanded, done⟩ := put
  obtain rfl : _ = passed := congrArg Attempt.state expanded
  obtain rfl : _ = q := congrArg Attempt.state done
  exact ⟨rfl, rfl, rfl⟩

theorem events_of_putAll (run : OpcodeSink.putAll p ops = .ok q) :
    q.events.toList = p.events.toList ++ expansionsAfter p.mode p.last ops := by
  induction ops generalizing p with
  | nil =>
      obtain rfl : p = q := congrArg Attempt.state run
      exact (List.append_nil _).symm
  | cons op rest ih =>
      rw [OpcodeSink.putAll_cons, Attempt.andThen_eq_ok_iff] at run
      obtain ⟨n, put, later⟩ := run
      -- What is reported next depends on the mode and the look-back alone.
      obtain ⟨mode, last, reported⟩ := kept_of_put put
      rw [ih later, mode, last, reported, events_report, expansionsAfter, List.append_assoc]

end

/-- A new tape takes the whole prettified program. -/
theorem putAll_new (mode : Mode) (program : List Opcode) :
    let a := OpcodeSink.putAll ({ sink := {}, mode } : PrettySink OpcodeTape) program
    a.fault = none ∧ a.state.sink.toList = prettify mode program ∧
      a.state.events.toList = expansionsAfter mode none program := by
  intro a
  have passed : a.map sink = _ := (map_sink_putAll _ program).trans (OpcodeTape.putAll_new _)
  have taken : a.fault = none := congrArg Attempt.fault passed
  have tape : a.state.sink = OpcodeTape.storing {} (prettify mode program) _ :=
    congrArg Attempt.state passed
  refine ⟨taken, ?_, ?_⟩
  · rw [tape, OpcodeTape.toList_storing]
    rfl
  · rw [events_of_putAll (Attempt.eq_ok taken)]
    rfl

theorem collectTraced_eq (mode : Mode) (program : List Opcode) :
    collectTraced mode program =
      ⟨.ok (prettify mode program), expansionsAfter mode none program⟩ := by
  obtain ⟨taken, tape, events⟩ := putAll_new mode program
  rw [collectTraced, events, Attempt.eq_ok taken, ← tape]
  rfl

theorem collect_eq (mode : Mode) (program : List Opcode) :
    collect mode program = .ok (prettify mode program) :=
  congrArg Traced.result (collectTraced_eq mode program)

end PrettySink
end StackText
