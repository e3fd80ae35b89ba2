import Mathlib.Data.List.Chain
import StackText.Proofs.Prettify.Sink

/-!
# Normal forms of prettifying

A program is normal if no addition in it stands right behind a shift. Prettifying leaves
normal programs as they are and takes all others to normal ones, at the price of two
opcodes for each such addition (`prettify_normalForm`). Two programs are taken to the same
one if they differ only in pairs of negations between a shift and an addition: those are
what prettifying puts in, so it cannot tell which of them were there before.
-/
namespace StackText

/-- Whether an opcode is an addition and the one before it a shift. -/
def Opcode.addsBehind (before op : Opcode) : Bool := before.isShift && op == .intAdd

/-- No addition stands right behind a shift. -/
def IsNormal (program : List Opcode) : Prop :=
  program.IsChain fun before op => ¬ Opcode.addsBehind before op

/-- How many additions stand right behind a shift. -/
def shiftedAdditions (program : List Opcode) : Nat :=
  (program.zip program.tail).countP fun neighbours =>
    Opcode.addsBehind neighbours.1 neighbours.2

/-- Takes out the two negations wherever nothing else stands between a shift and an addition.
Such places do not overlap, since each starts with the only shift in it. -/
def contract : List Opcode → List Opcode
  | [] => []
  | op :: rest =>
      match op.isShift, rest with
      | true, .intNeg :: .intNeg :: .intAdd :: rest => op :: .intAdd :: contract rest
      | _, rest => op :: contract rest

theorem Mode.expands_some (mode : Mode) (before op : Opcode) :
    mode.expands (some before) op = (mode == .pretty && Opcode.addsBehind before op) := by
  rw [expands, Opcode.addsBehind, Option.any_some, Bool.and_assoc, Bool.and_comm before.isShift]

theorem Opcode.addsBehind_iff {before op : Opcode} :
    Opcode.addsBehind before op ↔ before.isShift ∧ op = .intAdd := by
  rw [addsBehind, Bool.and_eq_true, beq_iff_eq]

section
variable {before op : Opcode}

/-- The first opcode of a program is never expanded. -/
theorem prettify_cons (mode : Mode) (op : Opcode) (rest : List Opcode) :
    prettify mode (op :: rest) = op :: prettifyAfter mode (some op) rest := by
  have plain : mode.expands none op = false := Bool.and_false _
  rw [prettify, prettifyAfter, Mode.expansion, if_neg (by simp [plain]), List.singleton_append]

theorem prettifyAfter_cons_of_adds (adds : Opcode.addsBehind before op) (rest : List Opcode) :
    prettifyAfter .pretty (some before) (op :: rest) =
      .intNeg :: .intNeg :: op :: prettifyAfter .pretty (some op) rest := by
  obtain ⟨-, rfl⟩ := Opcode.addsBehind_iff.1 adds
  rw [prettifyAfter, Mode.expansion, Mode.expands_some, if_pos (by simpa using adds)]
  rfl

theorem prettifyAfter_cons_of_not_adds (mode : Mode) (plain : ¬ Opcode.addsBehind before op)
    (rest : List Opcode) :
    prettifyAfter mode (some before) (op :: rest) =
      op :: prettifyAfter mode (some op) rest := by
  rw [prettifyAfter, Mode.expansion, Mode.expands_some, if_neg (by simp [plain]),
    List.singleton_append]

/-- Only a shift in front makes a difference to what follows. -/
theorem prettifyAfter_of_not_shift (mode : Mode) (other : ¬ before.isShift)
    (program : List Opcode) :
    prettifyAfter mode (some before) program = prettify mode program := by
  cases program with
  | nil => rfl
  | cons op rest =>
      have plain : ¬ Opcode.addsBehind before op := fun adds =>
        other (Opcode.addsBehind_iff.1 adds).1
      rw [prettifyAfter_cons_of_not_adds mode plain, prettify_cons]

theorem not_addsBehind_negation (before : Opcode) : ¬ Opcode.addsBehind before .intNeg :=
  fun adds => nomatch (Opcode.addsBehind_iff.1 adds).2

theorem negation_not_addsBehind (op : Opcode) : ¬ Opcode.addsBehind .intNeg op := fun adds =>
  nomatch (Opcode.addsBehind_iff.1 adds).1

/-- Two negations separate an addition from whatever stands before them. -/
theorem prettifyAfter_negations (before : Opcode) (rest : List Opcode) :
    prettifyAfter .pretty (some before) (.intNeg :: .intNeg :: .intAdd :: rest) =
      .intNeg :: .intNeg :: .intAdd :: prettify .pretty rest := by
  have other : ¬ Opcode.isShift .intAdd := by decide
  rw [prettifyAfter_cons_of_not_adds .pretty (not_addsBehind_negation before),
    prettifyAfter_cons_of_not_adds .pretty (negation_not_addsBehind _),
    prettifyAfter_cons_of_not_adds .pretty (negation_not_addsBehind _),
    prettifyAfter_of_not_shift .pretty other]

/-- What is put in front of an addition separates it from the shift, and behind an addition
everything starts anew. -/
theorem isNormal_cons_prettifyAfter (before : Opcode) (program : List Opcode) :
    IsNormal (before :: prettifyAfter .pretty (some before) program) := by
  induction program generalizing before with
  | nil => exact List.isChain_singleton before
  | cons op rest ih =>
      by_cases adds : Opcode.addsBehind before op
      · have behind : IsNormal (.intNeg :: op :: prettifyAfter .pretty (some op) rest) :=
          .cons_cons (negation_not_addsBehind op) (ih op)
        rw [prettifyAfter_cons_of_adds adds]
        exact .cons_cons (not_addsBehind_negation before)
          (.cons_cons (negation_not_addsBehind _) behind)
      · rw [prettifyAfter_cons_of_not_adds .pretty adds]
        exact .cons_cons adds (ih op)

theorem prettifyAfter_of_isNormal (mode : Mode) {program : List Opcode}
    (normal : IsNormal (before :: program)) :
    prettifyAfter mode (some before) program = program := by
  induction program generalizing before with
  | nil => rfl
  | cons op rest ih =>
      obtain ⟨plain, later⟩ := List.isChain_cons_cons.1 normal
      rw [prettifyAfter_cons_of_not_adds mode plain, ih later]

theorem length_prettifyAfter (before : Opcode) (program : List Opcode) :
    (prettifyAfter .pretty (some before) program).length =
      program.length + 2 * shiftedAdditions (before :: program) := by
  induction program generalizing before with
  | nil => rfl
  | cons op rest ih =>
      have count : shiftedAdditions (before :: op :: rest) =
          shiftedAdditions (op :: rest) + if Opcode.addsBehind before op then 1 else 0 :=
        List.countP_cons
      by_cases adds : Opcode.addsBehind before op
      · rw [prettifyAfter_cons_of_adds adds, count, if_pos adds]
        simp only [List.length_cons, ih]
        omega
      · rw [prettifyAfter_cons_of_not_adds .pretty adds, count, if_neg adds]
        simp only [List.length_cons, ih]
        omega

end

theorem isNormal_prettify (program : List Opcode) : IsNormal (prettify .pretty program) := by
  cases program with
  | nil => exact List.isChain_nil
  | cons op rest =>
      rw [prettify_cons]
      exact isNormal_cons_prettifyAfter op rest

/-- Normal programs are left as they are. -/
theorem prettify_of_isNormal (mode : Mode) {program : List Opcode} (normal : IsNormal program) :
    prettify mode program = program := by
  cases program with
  | nil => rfl
  | cons op rest => rw [prettify_cons, prettifyAfter_of_isNormal mode normal]

theorem length_prettify (program : List Opcode) :
    (prettify .pretty program).length = program.length + 2 * shiftedAdditions program := by
  cases program with
  | nil => rfl
  | cons op rest =>
      rw [prettify_cons, List.length_cons, length_prettifyAfter, List.length_cons]
      omega

section
variable {op : Opcode} {rest : List Opcode}

theorem contract_cons_of_shift (shift : op.isShift) (rest : List Opcode) :
    contract (op :: .intNeg :: .intNeg :: .intAdd :: rest) = op :: .intAdd :: contract rest :=
  contract.eq_2 op rest shift

theorem contract_cons_of_not_shift (other : ¬ op.isShift) (rest : List Opcode) :
    contract (op :: rest) = op :: contract rest :=
  contract.eq_3 op rest fun _ shift => absurd shift other

theorem contract_cons_of_ne
    (apart : ∀ later, rest ≠ .intNeg :: .intNeg :: .intAdd :: later) :
    contract (op :: rest) = op :: contract rest :=
  contract.eq_3 op rest fun later _ => apart later

end

/-- Two negations between a shift and an addition are put in again. -/
theorem prettifyAfter_contract (last : Option Opcode) (program : List Opcode) :
    prettifyAfter .pretty last (contract program) = prettifyAfter .pretty last program := by
  induction program using contract.induct generalizing last with
  | case1 => rfl
  | case2 op rest shift ih =>
      have adds : Opcode.addsBehind op .intAdd := Opcode.addsBehind_iff.2 ⟨shift, rfl⟩
      have other : ¬ Opcode.isShift .intAdd := by decide
      have same : prettifyAfter .pretty (some op) (.intAdd :: contract rest) =
          prettifyAfter .pretty (some op) (.intNeg :: .intNeg :: .intAdd :: rest) := by
        rw [prettifyAfter_cons_of_adds adds, prettifyAfter_negations, ih,
          prettifyAfter_of_not_shift .pretty other]
      rw [contract_cons_of_shift shift]
      exact congrArg (Mode.expansion .pretty last op ++ ·) same
  | case3 op rest apart ih =>
      rw [contract.eq_3 op rest apart]
      exact congrArg (Mode.expansion .pretty last op ++ ·) (ih (some op))

theorem exists_of_prettify_eq_cons {mode : Mode} {program rest : List Opcode} {op : Opcode}
    (h : prettify mode program = op :: rest) :
    ∃ later, program = op :: later ∧ prettifyAfter mode (some op) later = rest := by
  cases program with
  | nil => cases h
  | cons first later =>
      rw [prettify_cons] at h
      obtain ⟨rfl, rest⟩ := List.cons.inj h
      exact ⟨later, rfl, rest⟩

/-- At the start of a program nothing is put in, so two negations and an addition that are
there now were there before. -/
theorem exists_of_prettify_eq_negations {mode : Mode} {program rest : List Opcode}
    (h : prettify mode program = .intNeg :: .intNeg :: .intAdd :: rest) :
    ∃ later, program = .intNeg :: .intNeg :: .intAdd :: later := by
  have other : ¬ Opcode.isShift .intNeg := by decide
  obtain ⟨second, rfl, behind⟩ := exists_of_prettify_eq_cons h
  rw [prettifyAfter_of_not_shift mode other] at behind
  obtain ⟨third, rfl, last⟩ := exists_of_prettify_eq_cons behind
  rw [prettifyAfter_of_not_shift mode other] at last
  obtain ⟨later, rfl, -⟩ := exists_of_prettify_eq_cons last
  exact ⟨later, rfl⟩

/-- What prettifying puts in is taken out, and nothing else is if it was not there before. -/
theorem contract_prettify (program : List Opcode) :
    contract (prettify .pretty program) = contract program := by
  have other : ¬ Opcode.isShift .intAdd := by decide
  induction program using contract.induct with
  | case1 => rfl
  | case2 op rest shift ih =>
      rw [prettify_cons, prettifyAfter_negations, contract_cons_of_shift shift,
        contract_cons_of_shift shift, ih]
  | case3 op rest apart ih =>
      rw [contract.eq_3 op rest apart, prettify_cons, ← ih]
      by_cases shift : op.isShift
      · cases rest with
        | nil => exact contract_cons_of_ne fun _ same => nomatch same
        | cons next rest =>
            by_cases adds : Opcode.addsBehind op next
            · obtain ⟨-, rfl⟩ := Opcode.addsBehind_iff.1 adds
              rw [prettifyAfter_cons_of_adds adds, contract_cons_of_shift shift, prettify_cons,
                contract_cons_of_not_shift other]
            · rw [prettifyAfter_cons_of_not_adds .pretty adds, ← prettify_cons]
              refine contract_cons_of_ne fun later same => ?_
              obtain ⟨_, before⟩ := exists_of_prettify_eq_negations same
              exact apart _ shift before
      · rw [prettifyAfter_of_not_shift .pretty shift, contract_cons_of_not_shift shift]

theorem prettify_eq_iff (first second : List Opcode) :
    prettify .pretty first = prettify .pretty second ↔ contract first = contract second := by
  constructor
  · intro same
    rw [← contract_prettify first, same, contract_prettify]
  · intro same
    rw [prettify, ← prettifyAfter_contract, same, prettifyAfter_contract]
    rfl

/-- Prettifying takes every program to a normal one, two opcodes longer for each addition
right behind a shift, which prettifying in either mode leaves as it is. It takes two
programs to the same one just if they are the same once the negations between shifts and
additions are taken out. -/
theorem prettify_normalForm (program : List Opcode) :
    ∃ pretty, PrettySink.collect .pretty program = .ok pretty ∧ IsNormal pretty ∧
      pretty.length = program.length + 2 * shiftedAdditions program ∧
      (∀ mode, PrettySink.collect mode pretty = .ok pretty) ∧
      ∀ other, PrettySink.collect .pretty program = PrettySink.collect .pretty other ↔
        contract program = contract other := by
  have normal := isNormal_prettify program
  refine ⟨prettify .pretty program, PrettySink.collect_eq .pretty program, normal,
    length_prettify program, fun mode => ?_, fun other => ?_⟩
  · rw [PrettySink.collect_eq, prettify_of_isNormal mode normal]
  · rw [PrettySink.collect_eq, PrettySink.collect_eq, Except.ok.injEq]
    exact prettify_eq_iff program other

end StackText
