import Rubric.Proofs.Binder
import Rubric.Proofs.Script.Sites

/-!
# What checked scripts can fail with

A check of a script looks at its text only, and a run of the script takes one of many ways through
it.  This module says what a run can still fail with after a check.

* `check_errors_sound` : without findings of the gravest kind, no run meets an unknown name or
  function or assigns a read-only name, and only loops over bound fields shadow a binding;
* `check_flow_covers` : an undefined variable is one that was found to be used before its
  definition, or one that is assigned earlier in the text but not on every way.
-/

namespace Rubric

namespace Binder

/-- The bound names that stand for fields of the item. -/
def targets (b : Binder) : List String :=
  b.names.filter fun name => (b.get? name).any fun binding => binding.kind == .target

theorem mem_names {b : Binder} {name : String} : name ∈ b.names ↔ b.contains name := by
  simp [names, contains, get?]

theorem mem_targets {b : Binder} {name : String} :
    name ∈ b.targets ↔ ∃ binding, b.get? name = some binding ∧ binding.kind = .target := by
  simp only [targets, List.mem_filter, mem_names, contains, Option.any_eq_true, beq_iff_eq]
  constructor
  · rintro ⟨-, binding, hbinding⟩
    exact ⟨binding, hbinding⟩
  · rintro ⟨binding, hbound, hkind⟩
    exact ⟨by simp [hbound], binding, hbound, hkind⟩

end Binder

namespace Script

variable {p : Program} {env : Environment}

/-! ## Findings -/

/-- There are errors where a finding is one. -/
theorem CheckReport.hasErrors_iff (r : CheckReport) :
    r.hasErrors ↔ ∃ f ∈ r.findings, f.issue.severity = .error := by
  simp [hasErrors, count, List.countP_eq_zero]

section

variable {known targets : List String} {s : Stmt} {f : Finding}

theorem mem_findings_of_flow (h : f ∈ checkFlow known [] p.allStatements) :
    f ∈ (check p known targets).findings := by
  simp [check, h]

theorem mem_findings_of_assignment (hs : s ∈ p.allStatements)
    (h : f ∈ checkAssignment known targets s) : f ∈ (check p known targets).findings := by
  simp only [check, List.mem_append, List.mem_flatMap]
  exact .inl (.inl (.inl (.inr ⟨s, hs, h⟩)))

theorem mem_findings_of_names (hknown : known ≠ []) (hs : s ∈ p.allStatements)
    (h : f ∈ checkNames known s) : f ∈ (check p known targets).findings := by
  have hnames : f ∈ (if known.isEmpty then [] else p.allStatements.flatMap (checkNames known)) := by
    rw [if_neg (by simpa using hknown), List.mem_flatMap]
    exact ⟨s, hs, h⟩
  simp only [check, List.mem_append]
  exact .inl (.inl (.inr hnames))

end

/-! ## Names and assignments -/

/-- Whether a fault is one of those that a check finds beforehand as errors. -/
def isErrorOfCheck : Fault → Bool
  | .name (.unknownFunction _) => true
  | .name (.unknownName _) => true
  | .name (.assignToBinding _) => true
  | .name (.shadowing _) => true
  | _ => false

theorem isOfValues_of_isErrorOfCheck {fault : Fault} (h : isErrorOfCheck fault) :
    fault.isOfValues = false := by
  unfold isErrorOfCheck at h
  split at h
  · rfl
  · rfl
  · rfl
  · rfl
  · cases h

/-- The variable that a loop runs over, with its dollar sign. -/
def Stmt.loops? : Stmt → Option String
  | .foreach _ var _ _ => some ("$" ++ var)
  | _ => none

/-- A name that stands for nothing is found. -/
theorem hasErrors_of_unresolved {s : Stmt} {e : Expr} {locals : Locals} {fault : Fault}
    {targets : List String} (hne : env.binder.names ≠ []) (hs : s ∈ p.allStatements)
    (he : e ∈ Expr.walkAll s.expressions) (h : Unresolved env locals e fault)
    (hfault : isErrorOfCheck fault) : (check p env.binder.names targets).hasErrors := by
  have hfound {issue : Issue} (hissue : e.nameIssue? env.binder.names = some issue)
      (herror : issue.severity = .error) : (check p env.binder.names targets).hasErrors := by
    rw [CheckReport.hasErrors_iff]
    refine ⟨⟨s.line, issue⟩, mem_findings_of_names hne hs ?_, herror⟩
    exact List.mem_filterMap.mpr ⟨e, he, by simp [hissue]⟩
  have hunknown {name : String} (hunbound : env.binder.get? name = none) :
      env.binder.names.contains name = false := by
    simp [List.contains_eq_mem, Binder.mem_names, Binder.contains, hunbound]
  cases h with
  | undefinedVariable => simp [isErrorOfCheck] at hfault
  | unknownName hunbound =>
      have hissue := hunknown hunbound
      exact hfound (by rw [Expr.nameIssue?, if_neg (by simpa using hissue)]) rfl
  | unknownFunction hplain hunbound hnone =>
      have hissue := hunknown hunbound
      exact hfound (by rw [Expr.nameIssue?, hplain, hissue, hnone]; rfl) rfl

/-- An assignment to a name that is bound, and not to a field, is found. -/
theorem hasErrors_of_assigned {s : Stmt} {name : String} (hs : s ∈ p.allStatements)
    (hassigned : s.assigned? = some name) (hbound : name ∈ env.binder.names)
    (hkind : name ∉ env.binder.targets) :
    (check p env.binder.names env.binder.targets).hasErrors := by
  rw [CheckReport.hasErrors_iff]
  have hfound : ∃ f ∈ checkAssignment env.binder.names env.binder.targets s,
      f.issue.severity = .error := by
    simp only [checkAssignment, hassigned]
    rw [if_pos (by simp [hbound, hkind])]
    split <;> exact ⟨_, List.mem_singleton_self _, rfl⟩
  obtain ⟨f, hf, herror⟩ := hfound
  exact ⟨f, mem_findings_of_assignment hs hf, herror⟩

/-- Where a check of a script against the names of a binder finds no error, no run of the script
there meets an unknown function or name or assigns a name that is bound to something else, and a loop
variable shadows a binding only where it is bound to a field. -/
theorem check_errors_sound {σ τ : Store} {fault : Fault} (hne : env.binder.bindings ≠ [])
    (hcheck : (check p env.binder.names env.binder.targets).hasErrors = false)
    (hrun : p.run env σ = .error fault τ) :
    ∃ line cause, fault = .atLine line cause ∧
      (isErrorOfCheck cause → ∃ s ∈ p.allStatements, s.line = line ∧
        ∃ name ∈ env.binder.targets, s.loops? = some name ∧ cause = .name (.shadowing name)) := by
  obtain ⟨site, hsite, cause, ⟨locals, -, hraises⟩, rfl⟩ := Program.run_error hrun
  obtain ⟨after, hafter⟩ := Program.standsIn_of_mem_sites hsite
  have hs : site.stmt ∈ p.allStatements := by simp [hafter]
  have hclean : ¬(check p env.binder.names env.binder.targets).hasErrors := by simp [hcheck]
  refine ⟨site.stmt.line, cause, rfl, fun hcause => ?_⟩
  generalize site.stmt = s at hs hraises ⊢
  cases hraises with
  | ofValues hvalues =>
      simp [isOfValues_of_isErrorOfCheck hcause] at hvalues
  | unresolved he h =>
      exact absurd (hasErrors_of_unresolved (by simpa [Binder.names] using hne) hs he h hcause) hclean
  | owner => simp [isErrorOfCheck] at hcause
  | readOnly hbound hkind =>
      refine absurd (hasErrors_of_assigned hs rfl ?_ ?_) hclean
      · simp [Binder.mem_names, Binder.contains, hbound]
      · simp [Binder.mem_targets, hbound, hkind]
  | @shadowing line var collection body hbound =>
      by_cases hkind : "$" ++ var ∈ env.binder.targets
      · exact ⟨_, hs, rfl, _, hkind, rfl, rfl⟩
      · exact absurd (hasErrors_of_assigned hs rfl (Binder.mem_names.mpr hbound) hkind) hclean

/-- A collection, and a result that is bound to no field. -/
def resultEnv : Environment :=
  ⟨⟨[⟨"$ctxC", .list ⟨0, none, 0⟩ [.int 3, .int 4], .collection⟩, ⟨"$result", .null, .target⟩]⟩,
    .null, .null⟩

/-- A script whose loop assigns the result in one branch and calls a function in the other. -/
def resultInElse : Program :=
  ⟨[.foreach 1 "r" (.var "ctxC")
      [.branch 2 (.binary .gt (.var "r") (.num (.int 3)))
        [.assign 3 "x" [] (.call "round" [.var "r"])]
        (.otherwise [.assign 5 "result" [] (.var "r")])]],
    "FOREACH $r IN $ctxC\n  IF $r > 3\n    SET $x = round($r)\n  ELSE\n" ++
      "    SET $result = $r\n  ENDIF\nENDFOREACH\n"⟩

/-- A checked script that fails when it writes its result. -/
theorem check_errors_sound_unbound :
    resultEnv.binder.bindings ≠ [] ∧
      (check resultInElse resultEnv.binder.names resultEnv.binder.targets).hasErrors = false ∧
      resultInElse.run resultEnv default
        = .error (.atLine 5 (.name (.unboundTarget "$result"))) default ∧
      ∃ line cause, Fault.atLine 5 (.name (.unboundTarget "$result")) = .atLine line cause ∧
        (isErrorOfCheck cause → ∃ s ∈ resultInElse.allStatements, s.line = line ∧
          ∃ name ∈ resultEnv.binder.targets, s.loops? = some name ∧ cause = .name (.shadowing name)) := by
  have hne : resultEnv.binder.bindings ≠ [] := by simp [resultEnv]
  have hcheck :
      (check resultInElse resultEnv.binder.names resultEnv.binder.targets).hasErrors = false := by
    decide +kernel
  have hrun : resultInElse.run resultEnv default
      = .error (.atLine 5 (.name (.unboundTarget "$result"))) default := rfl
  exact ⟨hne, hcheck, hrun, check_errors_sound hne hcheck hrun⟩

/-- A script whose loop runs over the name of the result. -/
def loopOverResult : Program :=
  ⟨[.foreach 1 "result" (.var "ctxC") [.assign 2 "x" [] (.num (.int 1))]],
    "FOREACH $result IN $ctxC\n  SET $x = 1\nENDFOREACH\n"⟩

/-- A check that finds no error does not rule out that a loop variable shadows a binding. -/
theorem not_check_errors_sound_of_any_loop :
    ¬ ∀ (p : Program) (env : Environment) (σ τ : Store) (fault : Fault),
      env.binder.bindings ≠ [] →
      (check p env.binder.names env.binder.targets).hasErrors = false →
      p.run env σ = .error fault τ →
      ∃ line cause, fault = .atLine line cause ∧ isErrorOfCheck cause = false := by
  intro hall
  have hrun : loopOverResult.run resultEnv default
      = .error (.atLine 1 (.name (.shadowing "$result"))) default := rfl
  obtain ⟨line, cause, hfault, hother⟩ :=
    hall loopOverResult resultEnv default default _ (by simp [resultEnv])
      (by decide +kernel) hrun
  cases hfault
  cases hother

/-! ## Variable flow -/

theorem mem_undefinedAmong {known defined names : List String} {name : String} :
    name ∈ undefinedAmong known defined names ↔
      name ∈ names ∧ name ∉ defined ∧ name ∉ known := by
  simp [undefinedAmong, Text.sorted, List.mem_mergeSort]

/-- A variable that a statement reads is found there or before, unless it is known or assigned
before. -/
theorem mem_checkFlow {known : List String} {s : Stmt} {name : String} (hread : name ∈ s.reads)
    (hunknown : name ∉ known) (after : List Stmt) : ∀ (before : List Stmt) (defined : List String),
    name ∈ defined ∨ (∃ t ∈ before, t.assigned? = some name) ∨
      ∃ f ∈ checkFlow known defined (before ++ s :: after), f.issue = .usedBeforeDefinition name
  | [], defined => by
      by_cases hdefined : name ∈ defined
      · exact .inl hdefined
      · refine .inr (.inr ⟨⟨s.line, .usedBeforeDefinition name⟩, ?_, rfl⟩)
        refine List.mem_append_left _ (List.mem_map.mpr ⟨name, ?_, rfl⟩)
        exact mem_undefinedAmong.mpr ⟨hread, hdefined, hunknown⟩
  | t :: before, defined => by
      rcases mem_checkFlow hread hunknown after before (checkReads known defined t).1 with
        h | ⟨u, hu, hassigned⟩ | ⟨f, hf, hissue⟩
      · simp only [checkReads, List.mem_append, List.mem_filter, Option.mem_toList] at h
        rcases h with (⟨hassigned, -⟩ | hmissing) | hdefined
        · exact .inr (.inl ⟨t, List.mem_cons_self, hassigned⟩)
        · refine .inr (.inr ⟨⟨t.line, .usedBeforeDefinition name⟩, ?_, rfl⟩)
          exact List.mem_append_left _ (List.mem_map.mpr ⟨name, hmissing, rfl⟩)
        · exact .inl hdefined
      · exact .inr (.inl ⟨u, List.mem_cons_of_mem _ hu, hassigned⟩)
      · exact .inr (.inr ⟨f, List.mem_append_right _ hf, hissue⟩)

/-- An undefined variable that a statement raises is one that it reads. -/
theorem Stmt.Raises.mem_reads {s : Stmt} {locals : Locals} {name : String}
    (h : s.Raises env locals (.name (.undefinedVariable name))) :
    name ∈ s.reads ∧ locals.lookup name = none ∧ env.binder.get? name = none := by
  cases h with
  | ofValues h => simp [Fault.isOfValues] at h
  | unresolved he h =>
      cases h with
      | undefinedVariable hreads hunset hunbound =>
          refine ⟨List.mem_append_left _ (List.mem_filterMap.mpr ⟨_, he, hreads⟩), hunset, hunbound⟩
  | owner howns hunset hunbound =>
      exact ⟨List.mem_append_right _ (by simp [howns]), hunset, hunbound⟩

/-- A run that fails with an undefined variable reads one that a check of the script against the same
names found to be used before its definition, or one that an earlier statement of the text assigns
but that is not definitely assigned where it is read. -/
theorem check_flow_covers {σ τ : Store} {line : Nat} {name : String} (targets : List String)
    (hrun : p.run env σ = .error (.atLine line (.name (.undefinedVariable name))) τ) :
    (∃ f ∈ (check p env.binder.names targets).findings, f.issue = .usedBeforeDefinition name) ∨
      ∃ site ∈ p.sites, site.stmt.line = line ∧ name ∈ site.stmt.reads ∧ name ∉ site.sure ∧
        ∃ t ∈ site.before, t.assigned? = some name := by
  obtain ⟨site, hsite, cause, ⟨locals, hsure, hraises⟩, hfault⟩ := Program.run_error hrun
  cases hfault
  obtain ⟨hread, hunset, hunbound⟩ := hraises.mem_reads
  have hunknown : name ∉ env.binder.names := by
    simp [Binder.mem_names, Binder.contains, hunbound]
  obtain ⟨after, hafter⟩ := Program.standsIn_of_mem_sites hsite
  rcases mem_checkFlow hread hunknown after site.before [] with h | hassigned | ⟨f, hf, hissue⟩
  · cases h
  · refine .inr ⟨site, hsite, rfl, hread, fun hmem => ?_, hassigned⟩
    rcases hsure name hmem with hset | hbound
    · simp [hunset] at hset
    · simp [Binder.contains, hunbound] at hbound
  · exact .inl ⟨f, mem_findings_of_flow (hafter ▸ hf), hissue⟩

/-- A script that reads a variable which only a branch assigns. -/
def skippedAssignment : Program :=
  ⟨[.branch 1 (.bool false) [.assign 2 "x" [] (.num (.int 1))] .done,
    .assign 4 "y" [] (.var "x")],
    "IF FALSE\n  SET $x = 1\nENDIF\nSET $y = $x\n"⟩

/-- A variable whose assignment is skipped. -/
theorem check_flow_covers_skipped :
    skippedAssignment.run ⟨.empty, .null, .null⟩ default
        = .error (.atLine 4 (.name (.undefinedVariable "$x"))) default ∧
      ((∃ f ∈ (check skippedAssignment [] defaultTargets).findings,
          f.issue = .usedBeforeDefinition "$x") ∨
        ∃ site ∈ skippedAssignment.sites, site.stmt.line = 4 ∧ "$x" ∈ site.stmt.reads ∧
          "$x" ∉ site.sure ∧ ∃ t ∈ site.before, t.assigned? = some "$x") := by
  have hrun : skippedAssignment.run ⟨.empty, .null, .null⟩ default
      = .error (.atLine 4 (.name (.undefinedVariable "$x"))) default := rfl
  exact ⟨hrun, check_flow_covers defaultTargets hrun⟩

/-- A check need not find the variable that a run is missing. -/
theorem not_check_flow_covers_every_way :
    ¬ ∀ (p : Program) (env : Environment) (σ τ : Store) (line : Nat) (name : String),
      p.run env σ = .error (.atLine line (.name (.undefinedVariable name))) τ →
      ∃ f ∈ (check p env.binder.names defaultTargets).findings,
        f.issue = .usedBeforeDefinition name := by
  intro hall
  have hrun : skippedAssignment.run ⟨.empty, .null, .null⟩ default
      = .error (.atLine 4 (.name (.undefinedVariable "$x"))) default := rfl
  obtain ⟨f, hf, hissue⟩ := hall skippedAssignment ⟨.empty, .null, .null⟩ default default 4 "$x" hrun
  have hnone : (check skippedAssignment [] defaultTargets).findings.all
      (fun f => f.issue != .usedBeforeDefinition "$x") := by decide +kernel
  simpa [hissue] using List.all_eq_true.mp hnone f hf

end Script

end Rubric
