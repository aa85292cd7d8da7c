import Rubric.Proofs.Script.MachineRuns

/-!
# Which statement a fault names

A script that fails does so with a fault that names the line of the statement that was under way when
something went wrong, the innermost one: statements around it report the fault as it is.

* `Program.run_error_innermost` : what the fault of a script says.
-/

namespace Rubric.Script

open Rubric.Text

/-- A fault that a statement raises outside its blocks names no line yet. -/
theorem Stmt.Raises.isScriptFault_eq {env : Environment} {locals : Locals} {s : Stmt} {fault : Fault}
    (h : s.Raises env locals fault) : fault.isScriptFault = false := by
  cases h with
  | ofValues h => cases fault <;> simp_all [Fault.isOfValues, Fault.isScriptFault]
  | unresolved _ h => cases h <;> rfl
  | _ => rfl

/-- A fault that is no missing key is reported in its own words, or by its class where it has none. -/
theorem Fault.reasonOf_eq {cause : Fault} (hkey : ∀ shown, cause ≠ .access (.missingKey shown))
    (hbinding : ∀ name, cause ≠ .unknownBinding name) :
    cause.reasonOf cause.message = if cause.message = "" then cause.kind.name else cause.message := by
  unfold Fault.reasonOf
  split
  · exact absurd rfl (hkey _)
  · exact absurd rfl (hbinding _)
  · simp only [String.isEmpty_iff]

/-- A script that fails raises one fault of scripts, and nothing else.  It names the line of the statement
that is the innermost one under way when the script fails, and that raised the cause outside its blocks: a
conditional where one of its conditions failed, a loop where its collection did.  Its message is that line,
once, and then the message of the cause, but for keys that were not found, which it says so of, and for
causes without a message, which it names by their class. -/
theorem Program.run_error_innermost {p : Program} {env : Environment} {σ τ : Store} {fault : Fault}
    (h : p.run env σ = .error fault τ) :
    ∃ n s inner outer left rounds cause reason,
      (Machine.start p σ).after env n = ⟨s, inner :: outer, left, rounds, some cause⟩ ∧ s.store = τ ∧
      inner.Raises env s.locals cause ∧ cause.isScriptFault = false ∧
      fault = .atLine inner.line cause ∧ fault.kind = .interpreterFault ∧ fault.line = inner.line ∧
      fault.message = s!"Line {inner.line}: {reason}" ∧
      (∀ shown, cause = .access (.missingKey shown) → reason = s!"Key not found: {shown}") ∧
      (∀ name, cause = .unknownBinding name → reason = s!"Key not found: {quoted cause.message}") ∧
      ((∀ shown, cause ≠ .access (.missingKey shown)) → (∀ name, cause ≠ .unknownBinding name) →
        reason = if cause.message = "" then cause.kind.name else cause.message) := by
  have hdoes : Machine.Does env (Machine.start p σ) [] [] [] id _ _ := Program.does_run p σ
  unfold Program.run at h
  cases hresult : Stmt.runAll env p.statements ⟨σ, []⟩ with
  | ok a s =>
      rw [hresult] at h
      cases h
  | error located s =>
      rw [hresult] at h hdoes
      obtain ⟨n, begun, -, inner, outer, left, cause, hafter, hcause, hlocated⟩ := hdoes
      obtain rfl : located = .atLine inner.line cause := hlocated
      cases h
      refine ⟨n, s, inner, outer, left, _, cause, cause.reasonOf cause.message, hafter, rfl, hcause,
        hcause.isScriptFault_eq, rfl, rfl, rfl, rfl, ?_, ?_, Fault.reasonOf_eq⟩
      · rintro shown rfl
        rfl
      · rintro name rfl
        rfl

/-! ## Failing scripts -/

/-- An environment with an empty mapping as the item. -/
def emptyRecordEnv : Environment := ⟨⟨[⟨"$ctxI", .mapping 0, .literal⟩]⟩, .null, .null⟩

/-- A store with an empty mapping. -/
def emptyRecordStore : Store := { (default : Store) with mappings := #[[]] }

/-- A script whose second condition fails, in a loop. -/
def failingCondition : Program :=
  ⟨[.foreach 1 "x" (.list [.num (.int 1)])
      [.branch 2 (.bool false) [] (.elif (.binary .div (.var "x") (.num (.int 0))) [] .done)]],
    "FOREACH $x IN [1]\n  IF FALSE\n  ELIF $x / 0\n  ENDIF\nENDFOREACH\n"⟩

/-- It fails at the line of the conditional. -/
theorem run_error_innermost_condition :
    failingCondition.run emptyRecordEnv emptyRecordStore
        = .error (.atLine 2 (.number .divisionByZero))
          { emptyRecordStore with nextTag := ⟨0, none, 1⟩ } ∧
      ∃ n s inner outer left rounds cause,
        (Machine.start failingCondition emptyRecordStore).after emptyRecordEnv n
          = ⟨s, inner :: outer, left, rounds, some cause⟩ ∧ inner.line = 2 := by
  have hrun : failingCondition.run emptyRecordEnv emptyRecordStore
      = .error (.atLine 2 (.number .divisionByZero))
        { emptyRecordStore with nextTag := ⟨0, none, 1⟩ } := by rfl
  refine ⟨hrun, ?_⟩
  obtain ⟨n, s, inner, outer, left, rounds, cause, reason, hafter, -, -, -, -, -, hline, -⟩ :=
    Program.run_error_innermost hrun
  exact ⟨n, s, inner, outer, left, rounds, cause, hafter, hline.symm⟩

/-- A script that looks up a key that is not there. -/
def missingKeyScript : Program :=
  ⟨[.assign 1 "x" [] (.index (.var "ctxI") (.str "k"))], "SET $x = $ctxI[\"k\"]\n"⟩

/-- A fault does not always say what its cause says: the message of a missing key is the key alone. -/
theorem not_run_error_own_message :
    ¬ ∀ (p : Program) (env : Environment) (σ τ : Store) (line : Nat) (cause : Fault),
      p.run env σ = .error (.atLine line cause) τ →
      (Fault.atLine line cause).message = s!"Line {line}: {cause.message}" := by
  intro hall
  have hrun : missingKeyScript.run emptyRecordEnv emptyRecordStore
      = .error (.atLine 1 (.access (.missingKey "'k'"))) emptyRecordStore := by rfl
  exact absurd (hall _ _ _ _ _ _ hrun) (by decide)

end Rubric.Script
