import StackText.Prettify.Sink
import StackText.Proofs.Prettify.Transparency
import StackText.Proofs.Sink.Opcodes

/-!
# Prettifying onto a tape that refuses calls

An expansion is handed to the tape one opcode after another, so a refusal can fall between
its negations and the addition. The negations stay on the tape then, but the addition does
not count as asked for, and whoever asks for it again has it expanded again. So a caller
that does not give up ends with the prettified program, but with more negations before some
of the additions (`insisted`). To the machine only their parity matters: an even number
undoes itself, and an odd number turns the addition into a subtraction.
-/
namespace StackText

theorem Mode.expansion_eq (mode : Mode) (last : Option Opcode) (op : Opcode) :
    mode.expansion last op =
      if mode = .pretty ∧ op = .intAdd ∧ (last = some .intShl ∨ last = some .intShr) then
        [.intNeg, .intNeg, .intAdd]
      else [op] := by
  have shift : last.any Opcode.isShift ↔ last = some .intShl ∨ last = some .intShr := by
    rcases last with _ | before
    · simp
    · cases before <;> simp [Opcode.isShift]
  have expands : mode.expands last op ↔
      mode = .pretty ∧ op = .intAdd ∧ (last = some .intShl ∨ last = some .intShr) := by
    rw [Mode.expands, Bool.and_eq_true, Bool.and_eq_true, beq_iff_eq, beq_iff_eq, shift, and_assoc]
  rw [Mode.expansion]
  simp only [expands]

/-- The opcodes before the last one of an expansion are negations. -/
theorem Mode.take_expansion (mode : Mode) (last : Option Opcode) (op : Opcode) {k : Nat}
    (short : k < (mode.expansion last op).length) :
    (mode.expansion last op).take k = List.replicate k .intNeg := by
  unfold expansion at short ⊢
  split
  · rename_i expands
    rw [if_pos expands] at short
    match k, short with
    | 0, _ => rfl
    | 1, _ => rfl
    | 2, _ => rfl
  · rename_i plain
    rw [if_neg plain] at short
    obtain rfl : k = 0 := Nat.lt_one_iff.1 short
    rfl

/-- Only an addition that is expanded can be refused half-way. -/
theorem Mode.expands_of_short {mode : Mode} {last : Option Opcode} {op : Opcode} {k : Nat}
    (short : k < (mode.expansion last op).length) : k = 0 ∨ mode.expands last op := by
  unfold expansion at short
  split at short
  · rename_i expands
    exact .inr expands
  · exact .inl (Nat.lt_one_iff.1 short)

namespace PrettySink

/-- All that one request can do on a tape: put the whole expansion on it, or as much of it
as comes before the first call that is refused. Only then it counts as the last. -/
theorem put_cases (p : PrettySink OpcodeTape) (op : Opcode) :
    let expansion := p.mode.expansion p.last op
    (∃ q, p.put op = .ok q ∧ q.mode = p.mode ∧ q.last = some op ∧
      q.sink = p.sink.storing expansion expansion.length) ∨
    ∃ q k, p.put op = .fail q (p.sink.reason (p.sink.calls + k)) ∧ q.mode = p.mode ∧
      q.last = p.last ∧ k < expansion.length ∧ p.sink.Refuses k ∧
      q.sink = p.sink.storing (expansion.take k) (k + 1) := by
  intro expansion
  rcases p.sink.free_or_refused expansion.length with free | ⟨k, short, refused, earlier⟩
  · left
    rw [put_eq, OpcodeTape.putAll_taken free]
    exact ⟨_, rfl, rfl, rfl, rfl⟩
  · right
    rw [put_eq, OpcodeTape.putAll_refused short refused earlier]
    exact ⟨_, k, rfl, rfl, rfl, short, refused, rfl⟩

/-- A request puts a part of the expansion on the tape, all of it unless a call is refused. -/
theorem put_extent (p : PrettySink OpcodeTape) (op : Opcode) :
    let expansion := p.mode.expansion p.last op
    let a := p.put op
    ∃ k ≤ expansion.length,
      a.state.sink.toList = p.sink.toList ++ expansion.take k ∧
        (a.fault = none ↔ k = expansion.length) ∧
        (a.fault = none → a.state.sink.calls = p.sink.calls + k) ∧
        ∀ why, a.fault = some why →
          p.sink.Refuses k ∧ why = p.sink.reason (p.sink.calls + k) ∧
            a.state.sink.calls = p.sink.calls + k + 1 := by
  intro expansion a
  rcases p.put_cases op with ⟨q, put, -, -, sink⟩ | ⟨q, k, put, -, -, short, refused, sink⟩
  · refine ⟨expansion.length, Nat.le_refl _, ?_⟩
    rw [show a = .ok q from put]
    refine ⟨?_, iff_of_true rfl rfl, fun _ => congrArg OpcodeTape.calls sink, nofun⟩
    rw [Attempt.state_ok, sink, OpcodeTape.toList_storing, List.take_length]
  · refine ⟨k, Nat.le_of_lt short, ?_⟩
    rw [show a = .fail q (p.sink.reason (p.sink.calls + k)) from put]
    refine ⟨?_, iff_of_false nofun (Nat.ne_of_lt short), nofun, ?_⟩
    · rw [Attempt.state_fail, sink, OpcodeTape.toList_storing]
    · intro why failed
      obtain rfl := Option.some.inj failed
      exact ⟨refused, rfl, congrArg OpcodeTape.calls sink⟩

theorem last_put (p : PrettySink OpcodeTape) (op : Opcode) :
    (p.put op).state.last = if (p.put op).fault.isNone then some op else p.last := by
  rcases p.put_cases op with ⟨q, put, -, last, -⟩ | ⟨q, k, put, -, last, -⟩
  · rw [put]
    exact last
  · rw [put]
    exact last

/-- After any requests the look-back names the last one that succeeded. -/
theorem last_runEach (p : PrettySink OpcodeTape) (requests : List Opcode) :
    (Attempt.runEach put p requests).2.last =
      (Attempt.granted put p requests).getLast?.or p.last := by
  induction requests generalizing p with
  | nil => rfl
  | cons op rest ih =>
      have later : (Attempt.runEach put p (op :: rest)).2.last = _ := ih (p.put op).state
      rw [later, last_put, Attempt.granted_cons]
      cases (p.put op).fault.isNone with
      | true =>
          rw [if_pos rfl, if_pos rfl, List.singleton_append, List.getLast?_cons]
          cases (Attempt.granted put (p.put op).state rest).getLast? <;> rfl
      | false => rfl

/-- No request changes the mode, or which calls the tape refuses and why. -/
theorem kept_runEach (p : PrettySink OpcodeTape) (requests : List Opcode) :
    let after := (Attempt.runEach put p requests).2
    after.mode = p.mode ∧ after.sink.refuses = p.sink.refuses ∧
      after.sink.reason = p.sink.reason := by
  let Kept (q : PrettySink OpcodeTape) : Prop :=
    q.mode = p.mode ∧ q.sink.refuses = p.sink.refuses ∧ q.sink.reason = p.sink.reason
  refine Attempt.runEach_preserves (P := Kept) ?_ ⟨rfl, rfl, rfl⟩ requests
  rintro q op ⟨mode, refuses, reason⟩
  rcases q.put_cases op with ⟨n, put, same, -, sink⟩ | ⟨n, k, put, same, -, -, -, sink⟩
  · rw [put]
    exact ⟨same.trans mode, (congrArg OpcodeTape.refuses sink).trans refuses,
      (congrArg OpcodeTape.reason sink).trans reason⟩
  · rw [put]
    exact ⟨same.trans mode, (congrArg OpcodeTape.refuses sink).trans refuses,
      (congrArg OpcodeTape.reason sink).trans reason⟩

/-- A caller asks for opcodes one after another, and for each again until it succeeds. With
every opcode there is what its failed requests have left on the tape. -/
inductive Insists : PrettySink OpcodeTape → List (Opcode × List Opcode) →
    PrettySink OpcodeTape → Prop
  | done {p : PrettySink OpcodeTape} : Insists p [] p
  | taken {p final : PrettySink OpcodeTape} {op : Opcode} {rest : List (Opcode × List Opcode)}
      (takes : (p.put op).fault = none) (later : Insists (p.put op).state rest final) :
      Insists p ((op, []) :: rest) final
  | refused {p final : PrettySink OpcodeTape} {op : Opcode} {part left : List Opcode}
      {rest : List (Opcode × List Opcode)} (refuses : (p.put op).fault ≠ none)
      (keeps : (p.put op).state.sink.toList = p.sink.toList ++ part)
      (again : Insists (p.put op).state ((op, left) :: rest) final) :
      Insists p ((op, part ++ left) :: rest) final

/-- What a caller that insists ends with: a prettified program in which additions that are
expanded have as many more negations in front as their failed requests left. -/
def insisted (mode : Mode) : Option Opcode → List (Opcode × List Opcode) → List Opcode
  | _, [] => []
  | last, (op, left) :: rest =>
      (if mode.expands last op then List.replicate (2 + left.count .intNeg) .intNeg ++ [.intAdd]
        else [op]) ++ insisted mode (some op) rest

/-- Nothing is left by failed requests but negations, and those only by additions that are
expanded. -/
def LeavesNegations (mode : Mode) : Option Opcode → List (Opcode × List Opcode) → Prop
  | _, [] => True
  | last, (op, left) :: rest =>
      (∀ other ∈ left, other = .intNeg ∧ mode.expands last op) ∧
        LeavesNegations mode (some op) rest

theorem insisted_cons (mode : Mode) (last : Option Opcode) (op : Opcode)
    (rest : List (Opcode × List Opcode)) :
    insisted mode last ((op, []) :: rest) =
      mode.expansion last op ++ insisted mode (some op) rest := by
  rw [insisted, Mode.expansion]
  rfl

/-- Negations that a failed request leaves stand in front of those of the next one. -/
theorem insisted_refused {mode : Mode} {last : Option Opcode} {op : Opcode} {k : Nat}
    (short : k < (mode.expansion last op).length) (left : List Opcode)
    (rest : List (Opcode × List Opcode)) :
    insisted mode last ((op, List.replicate k .intNeg ++ left) :: rest) =
      List.replicate k .intNeg ++ insisted mode last ((op, left) :: rest) := by
  rcases Mode.expands_of_short short with rfl | expands
  · rfl
  · have count : (List.replicate k Opcode.intNeg ++ left).count .intNeg =
        k + left.count .intNeg := by
      rw [List.count_append, List.count_replicate_self]
    rw [insisted, insisted, if_pos expands, if_pos expands, count, Nat.add_left_comm,
      ← List.replicate_append_replicate, List.append_assoc, List.append_assoc]
    simp only [List.append_assoc]

theorem Insists.spec {p final : PrettySink OpcodeTape} {tries : List (Opcode × List Opcode)}
    (h : Insists p tries final) :
    final.sink.toList = p.sink.toList ++ insisted p.mode p.last tries ∧
      LeavesNegations p.mode p.last tries := by
  induction h with
  | done => exact ⟨(List.append_nil _).symm, trivial⟩
  | @taken p final op rest takes later ih =>
      obtain ⟨held, leaves⟩ := ih
      rcases p.put_cases op with ⟨q, put, mode, last, sink⟩ | ⟨q, k, put, -⟩
      · rw [put, Attempt.state_ok, mode, last] at held leaves
        rw [held, sink, OpcodeTape.toList_storing, List.append_assoc, insisted_cons]
        exact ⟨rfl, nofun, leaves⟩
      · rw [put] at takes
        cases takes
  | @refused p final op part left rest refuses keeps again ih =>
      obtain ⟨held, leaves⟩ := ih
      rcases p.put_cases op with ⟨q, put, -⟩ | ⟨q, k, put, mode, last, short, -, sink⟩
      · rw [put] at refuses
        exact absurd rfl refuses
      · rw [put, Attempt.state_fail] at keeps held leaves
        obtain rfl : List.replicate k .intNeg = part := by
          rw [sink, OpcodeTape.toList_storing, Mode.take_expansion p.mode p.last op short] at keeps
          exact List.append_cancel_left keeps
        rw [mode, last] at held leaves
        obtain ⟨others, later⟩ := leaves
        refine ⟨?_, ?_, later⟩
        · rw [held, keeps, List.append_assoc, insisted_refused short]
        · intro other mem
          rcases List.mem_append.1 mem with mem | mem
          · obtain ⟨some, rfl⟩ := List.mem_replicate.1 mem
            exact ⟨rfl, (Mode.expands_of_short short).resolve_left some⟩
          · exact others other mem

end PrettySink

namespace Machine

/-- Takes the top of the stack from the integer below it. It fails as an addition does. -/
def subtract (m : Machine) : Attempt Trap Machine :=
  (m.withInt .intAdd fun m b => m.withInt .intAdd fun m a => m.push .intAdd (.int (a - b))).andThen
    fun m => .ok { m with executed := m.executed + 1 }

/-- To add the negation of the top is to subtract the top. -/
theorem step_add_negated (m : Machine) {b : Int64} {rest : List Value}
    (top : m.stack.values = .int b :: rest) :
    (m.holding (.int (-b) :: rest)).step .intAdd = m.subtract := by
  obtain ⟨⟨capacity, values⟩, executed⟩ := m
  obtain rfl : values = .int b :: rest := top
  cases rest with
  | nil =>
      simp only [step, effect, subtract, withInt, withPayload, withOperand, Stack.pop?, holding,
        Value.asInt?]
  | cons v rest =>
      cases v <;> simp only [step, effect, subtract, withInt, withPayload, withOperand, Stack.pop?,
        holding, Value.asInt?, Value.kind, Int64.sub_eq_add_neg]

/-- Executes an opcode, but subtracts if failed requests have left an odd number of negations
in front of it. -/
def stepInsisted (m : Machine) (tried : Opcode × List Opcode) : Attempt Trap Machine :=
  if tried.2.count .intNeg % 2 = 0 then m.step tried.1 else m.subtract

section
variable {m : Machine} {mode : Mode} {last : Option Opcode} {op : Opcode} {left : List Opcode}
  (leaves : ∀ other ∈ left, other = .intNeg ∧ mode.expands last op)
include leaves

theorem steps_insisted_one (h : AfterShift last m) :
    ∃ k, m.steps (if mode.expands last op then
        List.replicate (2 + left.count .intNeg) .intNeg ++ [.intAdd] else [op]) =
      (m.stepInsisted (op, left)).map (ahead k) := by
  by_cases expands : mode.expands last op
  · obtain ⟨rfl, shift⟩ := Mode.expands_eq_true expands
    obtain ⟨b, rest, top, room⟩ := h shift
    have parity : (2 + left.count .intNeg) % 2 = left.count .intNeg % 2 := Nat.add_mod_left 2 _
    refine ⟨2 + left.count .intNeg, ?_⟩
    rw [if_pos expands, steps_append, steps_negations top room, Attempt.andThen_ok, parity,
      stepInsisted, steps_cons, step_ahead]
    by_cases even : left.count .intNeg % 2 = 0
    · have same : m.holding (.int b :: rest) = m := by
        rw [← top]
        rfl
      rw [if_pos even, if_pos even, same]
      exact Attempt.andThen_ok_right _
    · rw [if_neg even, if_neg even, step_add_negated m top]
      exact Attempt.andThen_ok_right _
  · have nothing : left = [] :=
      List.eq_nil_iff_forall_not_mem.2 fun other mem => expands (leaves other mem).2
    refine ⟨0, ?_⟩
    rw [if_neg expands, nothing]
    exact Attempt.andThen_ok_right (m.step op)

theorem afterShift_stepInsisted {n : Machine} (h : m.stepInsisted (op, left) = .ok n) :
    AfterShift (some op) n := by
  unfold stepInsisted at h
  split at h
  · exact afterShift_step h
  · rename_i odd
    obtain ⟨other, mem⟩ : ∃ other, other ∈ left := by
      refine List.exists_mem_of_ne_nil left fun nothing => odd ?_
      rw [nothing]
      rfl
    obtain ⟨rfl, -⟩ := Mode.expands_eq_true (leaves other mem).2
    nofun

end

/-- The look-back carries the invariant, as it does for a program that is prettified once. -/
theorem steps_insisted {m : Machine} {mode : Mode} {last : Option Opcode}
    {tries : List (Opcode × List Opcode)} (h : AfterShift last m)
    (leaves : PrettySink.LeavesNegations mode last tries) :
    ∃ k, m.steps (PrettySink.insisted mode last tries) =
      (Attempt.runAll stepInsisted m tries).map (ahead k) := by
  induction tries generalizing m last with
  | nil => exact ⟨0, rfl⟩
  | cons tried rest ih =>
      obtain ⟨op, left⟩ := tried
      obtain ⟨first, later⟩ := leaves
      obtain ⟨j, one⟩ := steps_insisted_one first h
      rw [PrettySink.insisted, steps_append, one, Attempt.runAll_cons]
      rcases turn : m.stepInsisted (op, left) with ⟨n, _ | trap⟩
      · obtain ⟨k, run⟩ := ih (afterShift_stepInsisted first turn) later
        refine ⟨k + j, ?_⟩
        change (ahead j n).steps _ = (Attempt.runAll stepInsisted n rest).map (ahead (k + j))
        rw [steps_ahead, run, Attempt.map_map]
        simp only [ahead_ahead]
      · exact ⟨j, rfl⟩

/-- The result of a run does not show how many negations there were. -/
theorem steps_insisted_observed {mode : Mode} {tries : List (Opcode × List Opcode)}
    (leaves : PrettySink.LeavesNegations mode none tries) (m : Machine) :
    (m.steps (PrettySink.insisted mode none tries)).fault =
        (Attempt.runAll stepInsisted m tries).fault ∧
      (m.steps (PrettySink.insisted mode none tries)).state.stack =
        (Attempt.runAll stepInsisted m tries).state.stack := by
  obtain ⟨k, run⟩ := steps_insisted m.afterShift_none leaves
  rw [run]
  exact ⟨rfl, rfl⟩

/-- An even number of negations before each addition might as well not be there. -/
theorem runAll_stepInsisted_of_even {tries : List (Opcode × List Opcode)}
    (even : ∀ tried ∈ tries, tried.2.count .intNeg % 2 = 0) (m : Machine) :
    Attempt.runAll stepInsisted m tries = m.steps (tries.map (·.1)) := by
  induction tries generalizing m with
  | nil => rfl
  | cons tried rest ih =>
      obtain ⟨first, later⟩ := List.forall_mem_cons.1 even
      rw [Attempt.runAll_cons, stepInsisted, if_pos first, List.map_cons, steps_cons]
      exact congrArg _ (funext (ih later))

end Machine

section
open PrettySink

/-- A request on a prettifier, after any others, puts its expansion on the tape up to the
first call that is refused, and no other call is made for it. What it expands to depends on
the last request that succeeded. If a caller insists on every opcode, the tape ends up with
the prettified program and, in front of each addition that is expanded, the negations that
its failed requests left. It runs as the program does with a subtraction for every addition
where their number is odd; so it runs as the program does if there is none such. -/
theorem put_despite_refusals (mode : Mode) (refuses : Nat → Bool) (reason : Nat → IoError) :
    let start : PrettySink OpcodeTape := { sink := { refuses, reason }, mode }
    (∀ (earlier : List Opcode) (op : Opcode),
      let p := (Attempt.runEach put start earlier).2
      let last := (Attempt.granted put start earlier).getLast?
      let expansion : List Opcode :=
        if mode = .pretty ∧ op = .intAdd ∧ (last = some .intShl ∨ last = some .intShr) then
          [.intNeg, .intNeg, .intAdd]
        else [op]
      let a := p.put op
      ∃ k ≤ expansion.length,
        a.state.sink.toList = p.sink.toList ++ expansion.take k ∧
          (a.fault = none ↔ k = expansion.length) ∧
          (a.fault = none → a.state.sink.calls = p.sink.calls + k) ∧
          ∀ why, a.fault = some why →
            refuses (p.sink.calls + k) ∧ why = reason (p.sink.calls + k) ∧
              a.state.sink.calls = p.sink.calls + k + 1) ∧
    ∀ (tries : List (Opcode × List Opcode)) (final : PrettySink OpcodeTape),
      Insists start tries final →
        let held := final.sink.toList
        let program := tries.map (·.1)
        held = insisted mode none tries ∧
          (∀ m : Machine,
            (m.steps held).fault = (Attempt.runAll Machine.stepInsisted m tries).fault ∧
              (m.steps held).state.stack =
                (Attempt.runAll Machine.stepInsisted m tries).state.stack) ∧
          ((∀ tried ∈ tries, tried.2.count .intNeg % 2 = 0) →
            (∀ m : Machine, (m.steps held).fault = (m.steps program).fault ∧
              (m.steps held).state.stack = (m.steps program).state.stack) ∧
              run held = run program) := by
  intro start
  refine ⟨?_, ?_⟩
  · intro earlier op p last expansion a
    obtain ⟨sameMode, sameRefuses, sameReason⟩ := kept_runEach start earlier
    have lookBack : p.last = last := (last_runEach start earlier).trans Option.or_none
    have expands : p.mode.expansion p.last op = expansion := by
      rw [lookBack, sameMode]
      exact mode.expansion_eq last op
    obtain ⟨k, most, holds, succeeds, made, fails⟩ := p.put_extent op
    rw [expands] at most holds succeeds
    refine ⟨k, most, holds, succeeds, made, fun why failed => ?_⟩
    obtain ⟨refused, reported, calls⟩ := fails why failed
    rw [OpcodeTape.Refuses, sameRefuses] at refused
    rw [sameReason] at reported
    exact ⟨refused, reported, calls⟩
  · intro tries final insists held program
    obtain ⟨written, leaves⟩ := insists.spec
    have holds : held = insisted mode none tries := written
    have runs := Machine.steps_insisted_observed leaves
    have same (even : ∀ tried ∈ tries, tried.2.count .intNeg % 2 = 0) (m : Machine) :
        Attempt.runAll Machine.stepInsisted m tries = m.steps program :=
      Machine.runAll_stepInsisted_of_even even m
    rw [holds]
    refine ⟨rfl, runs, fun even => ⟨fun m => ?_, ?_⟩⟩
    · rw [← same even m]
      exact runs m
    · obtain ⟨k, run⟩ := Machine.steps_insisted Machine.fresh.afterShift_none leaves
      rw [run_eq, run_eq, run, same even]
      rfl

/-- Two is added to one, but the call for the second negation is refused, and with it the
first request of the addition: the caller ends with one less two. If the next call for that
negation is refused as well, the sum is right again. -/
theorem put_despite_refusals_twice :
    let once : PrettySink OpcodeTape := { sink := { refuses := (· == 6) }, mode := .pretty }
    let twice : PrettySink OpcodeTape :=
      { sink := { refuses := fun call => call == 6 || call == 8 }, mode := .pretty }
    let two : List Opcode := [.intNew, .intInc, .intNew, .intInc, .intShl]
    let tries (left : List Opcode) := two.map (·, []) ++ [(.intAdd, left)]
    run (two ++ [.intAdd]) = .ok (.int 3) ∧
      (∃ final, Insists once (tries [.intNeg]) final ∧
        final.sink.toList = two ++ [.intNeg, .intNeg, .intNeg, .intAdd] ∧
        run final.sink.toList = .ok (.int (-1))) ∧
      ∃ final, Insists twice (tries [.intNeg, .intNeg]) final ∧
        run final.sink.toList = .ok (.int 3) := by
  intro once twice two tries
  have odd : ∃ final, Insists once (tries ([.intNeg] ++ [])) final :=
    ⟨_, .taken (by decide) <| .taken (by decide) <| .taken (by decide) <| .taken (by decide) <|
      .taken (by decide) <| .refused (by decide) (by decide) <| .taken (by decide) .done⟩
  have even : ∃ final, Insists twice (tries ([.intNeg] ++ ([.intNeg] ++ []))) final :=
    ⟨_, .taken (by decide) <| .taken (by decide) <| .taken (by decide) <| .taken (by decide) <|
      .taken (by decide) <| .refused (by decide) (by decide) <|
        .refused (by decide) (by decide) <| .taken (by decide) .done⟩
  refine ⟨rfl, ?_, ?_⟩
  · obtain ⟨final, insists⟩ := odd
    have held := ((put_despite_refusals .pretty _ _).2 _ final insists).1
    exact ⟨final, insists, held, (congrArg run held).trans rfl⟩
  · obtain ⟨final, insists⟩ := even
    have pairs : ∀ tried ∈ tries [.intNeg, .intNeg], tried.2.count .intNeg % 2 = 0 := by decide
    have same := (((put_despite_refusals .pretty _ _).2 _ final insists).2.2 pairs).2
    exact ⟨final, insists, same.trans rfl⟩

end
end StackText
