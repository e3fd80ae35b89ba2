/-!
# Attempts

An operation that can fail half-way leaves a state behind in both cases: values
already taken off a stack stay off, bytes already written stay written. An
`Attempt` records that state together with the reason for the failure, if there
was one. `Attempt.andThen` goes on only after success and `Attempt.runAll`
carries out a list of requests until the first one fails.
-/
namespace StackText

structure Attempt (ε σ : Type) where
  /-- What the operation left behind. -/
  state : σ
  /-- Why it failed, or `none` after success. -/
  fault : Option ε
  deriving DecidableEq, Repr

namespace Attempt
variable {ε σ τ α : Type}

/-- Success with the given state. -/
def ok (state : σ) : Attempt ε σ := ⟨state, none⟩

/-- Failure that leaves the given state behind. -/
def fail (state : σ) (reason : ε) : Attempt ε σ := ⟨state, some reason⟩

/-- Goes on from the state reached, unless there was a failure. -/
def andThen (a : Attempt ε σ) (next : σ → Attempt ε σ) : Attempt ε σ :=
  match a.fault with
  | none => next a.state
  | some _ => a

/-- Changes the state left behind, whether or not there was a failure. -/
def map (f : σ → τ) (a : Attempt ε σ) : Attempt ε τ := ⟨f a.state, a.fault⟩

/-- Carries out the requests one after another and stops at the first failure. -/
def runAll (step : σ → α → Attempt ε σ) : σ → List α → Attempt ε σ
  | s, [] => ok s
  | s, a :: rest => (step s a).andThen fun s => runAll step s rest

/-- Carries out all requests, going on after failures. Beside the last state
there is what each request left behind, in order. -/
def runEach (step : σ → α → Attempt ε σ) : σ → List α → List (Attempt ε σ) × σ
  | s, [] => ([], s)
  | s, a :: rest =>
      let first := step s a
      let later := runEach step first.state rest
      (first :: later.1, later.2)

/-- The state after success, or the reason for the failure. -/
def toExcept (a : Attempt ε σ) : Except ε σ :=
  match a.fault with
  | none => .ok a.state
  | some reason => .error reason

@[simp] theorem state_ok (s : σ) : (ok s : Attempt ε σ).state = s := rfl
@[simp] theorem fault_ok (s : σ) : (ok s : Attempt ε σ).fault = none := rfl
@[simp] theorem state_fail (s : σ) (e : ε) : (fail s e).state = s := rfl
@[simp] theorem fault_fail (s : σ) (e : ε) : (fail s e).fault = some e := rfl

@[simp] theorem andThen_ok (s : σ) (next : σ → Attempt ε σ) : (ok s).andThen next = next s := rfl

@[simp] theorem andThen_fail (s : σ) (e : ε) (next : σ → Attempt ε σ) :
    (fail s e).andThen next = fail s e := rfl

@[simp] theorem andThen_ok_right (a : Attempt ε σ) : a.andThen ok = a := by
  rcases a with ⟨s, _ | e⟩ <;> rfl

theorem andThen_assoc (a : Attempt ε σ) (f g : σ → Attempt ε σ) :
    (a.andThen f).andThen g = a.andThen fun s => (f s).andThen g := by
  rcases a with ⟨s, _ | e⟩ <;> rfl

@[simp] theorem runAll_nil (step : σ → α → Attempt ε σ) (s : σ) : runAll step s [] = ok s := rfl

@[simp] theorem runAll_cons (step : σ → α → Attempt ε σ) (s : σ) (a : α) (rest : List α) :
    runAll step s (a :: rest) = (step s a).andThen fun s => runAll step s rest := rfl

/-- A list of requests can be cut anywhere. -/
theorem runAll_append (step : σ → α → Attempt ε σ) (s : σ) (xs ys : List α) :
    runAll step s (xs ++ ys) = (runAll step s xs).andThen fun s => runAll step s ys := by
  induction xs generalizing s with
  | nil => rfl
  | cons x xs ih => simp only [List.cons_append, runAll_cons, ih, andThen_assoc]

end Attempt
end StackText
