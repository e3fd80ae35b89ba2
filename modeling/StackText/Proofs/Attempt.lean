import StackText.Attempt

/-!
# Lists of requests

What is shown of one request is shown here of lists of them, which either stop at the
first failure or go on. `Attempt.granted` are the requests that succeed when failures do not
stop the others.
-/
namespace StackText

namespace Attempt
variable {ε σ τ υ α : Type}

@[simp] theorem map_ok (f : σ → τ) (s : σ) : (ok s : Attempt ε σ).map f = ok (f s) := rfl

@[simp] theorem map_fail (f : σ → τ) (s : σ) (e : ε) :
    (fail s e : Attempt ε σ).map f = fail (f s) e := rfl

@[simp] theorem map_map (f : σ → τ) (g : τ → υ) (a : Attempt ε σ) :
    (a.map f).map g = a.map fun s => g (f s) := rfl

theorem andThen_of_fault {a : Attempt ε σ} {e : ε} (h : a.fault = some e)
    (next : σ → Attempt ε σ) : a.andThen next = a := by
  simp only [andThen, h]

theorem eq_ok {a : Attempt ε σ} (h : a.fault = none) : a = ok a.state := congrArg (mk a.state) h

theorem andThen_eq_ok_iff {a : Attempt ε σ} {next : σ → Attempt ε σ} {t : σ} :
    a.andThen next = ok t ↔ ∃ s, a = ok s ∧ next s = ok t := by
  constructor
  · rcases a with ⟨s, _ | e⟩
    · exact fun done => ⟨s, rfl, done⟩
    · exact nofun
  · rintro ⟨s, rfl, done⟩
    exact done

/-- An operation that respects a change of the state can be carried out before it. -/
theorem map_andThen {f : σ → τ} {first : σ → Attempt ε σ} {second : τ → Attempt ε τ}
    (respects : ∀ s, second (f s) = (first s).map f) (a : Attempt ε σ) :
    (a.map f).andThen second = (a.andThen first).map f := by
  rcases a with ⟨s, _ | e⟩
  · exact respects s
  · rfl

section
variable {P : σ → Prop} {step : σ → α → Attempt ε σ} (preserves : ∀ s a, P s → P (step s a).state)
include preserves

/-- What every request preserves, whatever becomes of it, a list of them preserves, whether
it stops at a failure -/
theorem runAll_preserves {s : σ} (start : P s) (requests : List α) :
    P (runAll step s requests).state := by
  induction requests generalizing s with
  | nil => exact start
  | cons a rest ih =>
      have next := preserves s a start
      rw [runAll_cons]
      rcases turn : step s a with ⟨t, _ | e⟩ <;> rw [turn] at next
      · exact ih next
      · exact next

/-- or goes on. -/
theorem runEach_preserves {s : σ} (start : P s) (requests : List α) :
    P (runEach step s requests).2 := by
  induction requests generalizing s with
  | nil => exact start
  | cons a rest ih => exact ih (preserves s a start)

end

section
variable {f : σ → τ} {first : σ → α → Attempt ε σ} {second : τ → α → Attempt ε τ}
  (respects : ∀ s a, second (f s) a = (first s a).map f)
include respects

/-- What every request respects, a list of them does, whether it stops at a failure -/
theorem runAll_map (s : σ) (requests : List α) :
    runAll second (f s) requests = (runAll first s requests).map f := by
  induction requests generalizing s with
  | nil => rfl
  | cons a rest ih =>
      rw [runAll_cons, runAll_cons, respects]
      exact map_andThen ih _

/-- or goes on. -/
theorem runEach_map (s : σ) (requests : List α) :
    (runEach second (f s) requests).1 = (runEach first s requests).1.map (map f) := by
  induction requests generalizing s with
  | nil => rfl
  | cons a rest ih =>
      have later := ih (first s a).state
      have next : (second (f s) a).state = f (first s a).state := by
        rw [respects]
        rfl
      simp only [runEach, List.map_cons, next, later]
      rw [respects]

end

/-- Each request of a list stands for a few smaller ones. -/
theorem runAll_flatMap {β : Type} {coarse : σ → α → Attempt ε σ}
    {fine : σ → β → Attempt ε σ} {parts : α → List β}
    (splits : ∀ s a, coarse s a = runAll fine s (parts a)) (s : σ) (requests : List α) :
    runAll coarse s requests = runAll fine s (requests.flatMap parts) := by
  induction requests generalizing s with
  | nil => rfl
  | cons a rest ih =>
      rw [runAll_cons, List.flatMap_cons, runAll_append, splits]
      exact congrArg _ (funext ih)

/-- The requests that succeed, of those that are carried out whatever becomes of the others. -/
def granted (step : σ → α → Attempt ε σ) (s : σ) (requests : List α) : List α :=
  ((requests.zip (runEach step s requests).1).filter fun r => r.2.fault.isNone).map (·.1)

section
variable {step : σ → α → Attempt ε σ}

theorem granted_cons (s : σ) (a : α) (rest : List α) :
    granted step s (a :: rest) =
      (if (step s a).fault.isNone then [a] else []) ++ granted step (step s a).state rest := by
  rw [granted, runEach, List.zip_cons_cons, List.filter_cons]
  split <;> rfl

theorem granted_append (s : σ) (first second : List α) :
    granted step s (first ++ second) =
      granted step s first ++ granted step (runEach step s first).2 second := by
  induction first generalizing s with
  | nil => rfl
  | cons a rest ih => rw [List.cons_append, granted_cons, granted_cons, ih, List.append_assoc]; rfl

end

end Attempt
end StackText
