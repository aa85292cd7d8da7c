import Rubric.Proofs.Script.Blanking
import Rubric.Proofs.Script.Check

/-!
# Values that are never read

Where a check finds that a variable is set but never read, what is assigned to it does not matter: with null
in the place of those values, whatever ran without a fault does so still, writes the same, and leaves the same
in all other variables.

* `not_read_of_finding` : what the finding says of a script;
* `Machine.RunsLike` : a script with blanked values under way, and the script itself;
* `Program.blank_run_of_neverRead` : values that are never read do not matter.
-/

namespace Rubric.Script

/-! ## The finding -/

section

variable {known seen : List String} {name : String} {f : Finding}

theorem issue_of_mem_checkFlow {defined : List String} {ss : List Stmt} (h : f ∈ checkFlow known defined ss) :
    ∃ v, f.issue = .usedBeforeDefinition v := by
  induction ss generalizing defined with
  | nil => cases h
  | cons s ss ih =>
      rcases List.mem_append.mp h with h | h
      · obtain ⟨v, -, rfl⟩ := List.mem_map.mp h
        exact ⟨v, rfl⟩
      · exact ih h

theorem issue_of_mem_emptyBlock {line : Nat} {label : BlockLabel} {body : List Stmt}
    (h : f ∈ emptyBlock line label body) : ∃ label, f.issue = .emptyBlock label := by
  unfold emptyBlock at h
  split at h
  · rw [List.mem_singleton.mp h]
    exact ⟨label, rfl⟩
  · cases h

mutual

theorem Stmt.issue_of_mem_emptyBlocks : ∀ {s : Stmt}, f ∈ s.emptyBlocks → ∃ label, f.issue = .emptyBlock label
  | .assign _ _ _ _, h | .call _ _ _, h => by cases h
  | .branch line condition body rest, h => by
      rw [Stmt.emptyBlocks, List.mem_append, List.mem_append] at h
      rcases h with (h | h) | h
      · exact issue_of_mem_emptyBlock h
      · exact Stmt.issue_of_mem_allEmptyBlocks h
      · exact Alternatives.issue_of_mem_emptyBlocks h
  | .foreach line var collection body, h => by
      rw [Stmt.emptyBlocks, List.mem_append] at h
      rcases h with h | h
      · exact issue_of_mem_emptyBlock h
      · exact Stmt.issue_of_mem_allEmptyBlocks h

theorem Alternatives.issue_of_mem_emptyBlocks : ∀ {rest : Alternatives} {line : Nat},
    f ∈ rest.emptyBlocks line → ∃ label, f.issue = .emptyBlock label
  | .done, _, h => by cases h
  | .otherwise body, line, h => by
      rw [Alternatives.emptyBlocks, List.mem_append] at h
      rcases h with h | h
      · exact issue_of_mem_emptyBlock h
      · exact Stmt.issue_of_mem_allEmptyBlocks h
  | .elif condition body rest, line, h => by
      rw [Alternatives.emptyBlocks, List.mem_append, List.mem_append] at h
      rcases h with (h | h) | h
      · exact issue_of_mem_emptyBlock h
      · exact Stmt.issue_of_mem_allEmptyBlocks h
      · exact Alternatives.issue_of_mem_emptyBlocks h

theorem Stmt.issue_of_mem_allEmptyBlocks : ∀ {ss : List Stmt}, f ∈ Stmt.allEmptyBlocks ss →
    ∃ label, f.issue = .emptyBlock label
  | [], h => by cases h
  | s :: ss, h => by
      rw [Stmt.allEmptyBlocks, List.mem_append] at h
      rcases h with h | h
      · exact Stmt.issue_of_mem_emptyBlocks h
      · exact Stmt.issue_of_mem_allEmptyBlocks h

end

theorem not_mem_known_of_mem_firstDefinitions {ss : List Stmt} {line : Nat}
    (h : (name, line) ∈ firstDefinitions known seen ss) : name ∉ known := by
  induction ss generalizing seen with
  | nil => cases h
  | cons s ss ih =>
      rw [firstDefinitions] at h
      split at h
      · split at h
        · exact ih h
        · rename_i v _ hnew
          rcases List.mem_cons.mp h with heq | h
          · cases heq
            simpa using (not_or.mp (by simpa using hnew)).1
          · exact ih h
      · exact ih h

theorem issue_of_mem_checkAssignment {targets : List String} {s : Stmt}
    (h : f ∈ checkAssignment known targets s) :
    (∃ v, f.issue = .readOnlyLoop v) ∨ ∃ v, f.issue = .readOnlyAssignment v := by
  unfold checkAssignment at h
  split at h
  · cases h
  · rename_i v _
    split at h
    · split at h
      · rw [List.mem_singleton.mp h]
        exact .inl ⟨v, rfl⟩
      · rw [List.mem_singleton.mp h]
        exact .inr ⟨v, rfl⟩
    · cases h

theorem issue_of_mem_checkNames {s : Stmt} (h : f ∈ checkNames known s) :
    (∃ called, f.issue = .unknownFunction called) ∨ ∃ ident, f.issue = .unknownName ident := by
  obtain ⟨e, -, hissue⟩ := List.mem_filterMap.mp h
  obtain ⟨issue, hissue, rfl⟩ := Option.map_eq_some_iff.mp hissue
  unfold Expr.nameIssue? at hissue
  split at hissue
  · split at hissue
    · cases hissue
    · cases hissue
      exact .inl ⟨_, rfl⟩
  · split at hissue
    · cases hissue
    · cases hissue
      exact .inr ⟨_, rfl⟩
  · cases hissue

theorem issue_of_mem_checkResult {targets : List String} {p : Program} (h : f ∈ checkResult targets p) :
    f.issue = .resultNeverAssigned := by
  unfold checkResult at h
  split at h
  · rw [List.mem_singleton.mp h]
  · cases h

/-- A variable that is found to be set but never read is not known, and no statement reads it. -/
theorem not_read_of_finding {p : Program} {targets : List String}
    (h : ∃ f ∈ (check p known targets).findings, f.issue = .neverRead name) :
    name ∉ known ∧ Unread name p.allStatements := by
  obtain ⟨f, hf, hissue⟩ := h
  simp only [check, List.mem_append] at hf
  rcases hf with ((((hf | hf) | hf) | hf) | hf) | hf
  · obtain ⟨v, hv⟩ := issue_of_mem_checkFlow hf
    cases hissue.symm.trans hv
  · obtain ⟨⟨v, line⟩, hd, hunread⟩ := List.mem_filterMap.mp hf
    dsimp only at hunread
    split at hunread
    · cases hunread
    · rename_i hreads
      cases hunread
      cases hissue
      refine ⟨not_mem_known_of_mem_firstDefinitions hd, fun s hs hread => hreads ?_⟩
      exact List.contains_iff_mem.mpr (List.mem_flatMap.mpr ⟨s, hs, hread⟩)
  · obtain ⟨s, -, hs⟩ := List.mem_flatMap.mp hf
    rcases issue_of_mem_checkAssignment hs with ⟨v, hv⟩ | ⟨v, hv⟩ <;> cases hissue.symm.trans hv
  · split at hf
    · cases hf
    · obtain ⟨s, -, hs⟩ := List.mem_flatMap.mp hf
      rcases issue_of_mem_checkNames hs with ⟨v, hv⟩ | ⟨v, hv⟩ <;> cases hissue.symm.trans hv
  · obtain ⟨label, hlabel⟩ := Stmt.issue_of_mem_allEmptyBlocks hf
    cases hissue.symm.trans hlabel
  · cases hissue.symm.trans (issue_of_mem_checkResult hf)

end

/-! ## Calls without side effects -/

/-- Whether calling a function in a state of a run writes nothing, whatever its arguments. -/
def HarmlessIn (env : Environment) (s : RunState) (function : String) : Prop :=
  ∀ args τ, s.store.SameContents τ → τ.SameContents (stateLeft (callNamed env s.locals function args τ))

/-- Whether the values that a run assigns to a variable are computed by harmless functions only. -/
def Program.SetsHarmlessly (p : Program) (name : String) (env : Environment) (σ : Store) : Prop :=
  ∀ n line var value tasks,
    ((Machine.start p σ).after env n).tasks = .start (.assign line var [] value) :: tasks → "$" ++ var = name →
    value.Calls (HarmlessIn env ((Machine.start p σ).after env n).state)

/-- An expression that calls harmless functions only writes nothing. -/
theorem Expr.sameContents_eval {env : Environment} {s : RunState} {e : Expr}
    (h : e.Calls (HarmlessIn env s)) : s.store.SameContents (stateLeft (e.eval env s.locals s.store)) := by
  let R (τ υ : Store) : Prop := s.store.SameContents τ → s.store.SameContents υ
  have hpreorder : IsPreorder Store R := { refl := fun _ => id, trans := fun _ _ _ h h' => h' ∘ h }
  have hR (τ υ : Store) (hsame : τ.SameContents υ) : R τ υ := fun hτ => IsTrans.trans _ _ _ hτ hsame
  have hleaves : Leaves R (e.eval env s.locals) :=
    Expr.leaves_eval hR e fun part hpart function hcalled args τ hτ => hR τ _ (h part hpart function hcalled args τ hτ) hτ
  exact hleaves s.store (refl s.store)

/-- Names that are no variables and can be called without writing are harmless. -/
theorem harmlessIn_of_callsQuietly {env : Environment} (hrelation : ∀ s, env.valueOf "$pkAll" ≠ .setter s)
    {s : RunState} {function : String} (hplain : isVariableName function = false)
    (hquiet : env.CallsQuietly function) : HarmlessIn env s function := by
  intro args τ _
  have hlocals : callNamed env s.locals function args = callNamed env [] function args := by
    simp only [callNamed, hplain, Bool.false_eq_true, if_false]
  rw [hlocals]
  exact quiet_callNamed hrelation (fun _ h => by cases h) hquiet args τ

/-- What is assigned to a variable is computed by harmless functions, where the script calls names that can be
called without writing. -/
theorem Program.setsHarmlessly_of_callsQuietly {p : Program} {name : String} {env : Environment} {σ : Store}
    (hrelation : ∀ s, env.valueOf "$pkAll" ≠ .setter s)
    (h : ∀ line var value, .assign line var [] value ∈ p.allStatements → "$" ++ var = name →
      value.Calls fun function => isVariableName function = false ∧ env.CallsQuietly function) :
    p.SetsHarmlessly name env σ := by
  intro n line var value tasks hset hname part hpart function hcalled
  obtain ⟨hplain, hquiet⟩ := h line var value (Machine.mem_of_started hset) hname part hpart function hcalled
  exact harmlessIn_of_callsQuietly hrelation hplain hquiet

/-! ## Side by side -/

namespace Machine

/-- Whether a script with blanked values under way is alike to the script itself, by a renaming that takes the
tags that the one gave out to those that the other did.  The renaming keeps the tags of before, and takes the
tags to come to those to come; wherever it takes them, the machines match, for no tag to come is in use. -/
structure RunsLike (ρ : Tag → Tag) (name : String) (first : Tag) (m m' : Machine) : Prop where
  injective : Function.Injective ρ
  kept : ∀ tag, ¬first.ToCome tag → ρ tag = tag
  advanced : ∃ k, m.nextTag = first.advance k
  lines_up : ∀ i, ρ (m.nextTag.advance i) = m'.nextTag.advance i
  alike : ∀ ρ', Function.Injective ρ' → (∀ tag, ¬m.nextTag.ToCome tag → ρ' tag = ρ tag) →
    m.Matches ρ' name m'

variable {ρ : Tag → Tag} {name : String} {first : Tag} {m m' : Machine} {env : Environment}

/-- Tags of before are kept by every renaming that does the same with the tags in use. -/
theorem RunsLike.keeps (h : m.RunsLike ρ name first m') (htags : ∀ tag ∈ env.tags, ¬first.ToCome tag)
    {ρ' : Tag → Tag} (hsame : ∀ tag, ¬m.nextTag.ToCome tag → ρ' tag = ρ tag) : env.Keeps ρ' := by
  obtain ⟨k, hk⟩ := h.advanced
  refine Environment.keeps_of_tags fun tag htag => ?_
  have hbefore := htags tag htag
  rw [hsame tag fun hcome => hbefore (hk ▸ hcome).of_advance, h.kept tag hbefore]

/-- A step that does not assign the variable. -/
theorem RunsLike.step (h : m.RunsLike ρ name first m') (htags : ∀ tag ∈ env.tags, ¬first.ToCome tag)
    (hother : ∀ line var value tasks, m'.tasks = .start (.assign line var [] value) :: tasks →
      "$" ++ var ≠ name) :
    (m.step env).RunsLike ρ name first (m'.step env) := by
  obtain ⟨k, hk, hstays⟩ := (h.alike ρ h.injective fun _ _ => rfl).step h.injective
    (h.keeps htags fun _ _ => rfl) hother
  have hk' := (hstays fun i _ => h.lines_up i).2
  refine ⟨h.injective, h.kept, ?_, fun i => ?_, fun ρ' hρ' hsame => ?_⟩
  · obtain ⟨n, hn⟩ := h.advanced
    exact ⟨n + k, by rw [hk, hn, Tag.advance_advance]⟩
  · rw [hk, hk', Tag.advance_advance, Tag.advance_advance]
    exact h.lines_up (k + i)
  · rw [hk] at hsame
    have hbefore : ∀ tag, ¬m.nextTag.ToCome tag → ρ' tag = ρ tag := fun tag htag =>
      hsame tag fun hcome => htag hcome.of_advance
    obtain ⟨i, hi, hothers⟩ := (h.alike ρ' hρ' hbefore).step hρ' (h.keeps htags hbefore) hother
    have hik : i = k := Tag.advance_inj.mp (hi.symm.trans hk)
    refine (hothers fun n hn => ?_).1
    rw [hik] at hn
    rw [hsame _ (Tag.not_toCome_advance _ hn)]
    exact h.lines_up n

/-- Tags that only the script itself gives out are made up for by a renaming that puts the tags to come off. -/
theorem RunsLike.putOff (h : m.RunsLike ρ name first m') {r r' : Machine} {k : Nat}
    (hr : r.nextTag = m.nextTag) (hr' : r'.nextTag = m'.nextTag.advance k)
    (halike : ∀ ρ', m.Matches ρ' name m' → r.Matches ρ' name r') :
    r.RunsLike (ρ ∘ m.nextTag.later k) name first r' := by
  refine ⟨h.injective.comp (Tag.later_injective _ _), fun tag htag => ?_, ?_, fun i => ?_,
    fun ρ' hρ' hsame => halike ρ' (h.alike ρ' hρ' fun tag htag => ?_)⟩
  · obtain ⟨n, hn⟩ := h.advanced
    have hafter : ¬m.nextTag.ToCome tag := fun hcome => htag (hn ▸ hcome).of_advance
    rw [Function.comp, Tag.later_of_not hafter, h.kept tag htag]
  · rw [hr]
    exact h.advanced
  · rw [hr, hr', Function.comp, Tag.later_advance, Tag.advance_advance]
    exact h.lines_up (k + i)
  · rw [hsame tag (hr ▸ htag), Function.comp, Tag.later_of_not htag]

section

variable {state : RunState} {active : List Stmt} {tasks : List Task} {rounds : List Round} {line : Nat}
  {var : String} {value : Expr} (hfree : env.binder.get? ("$" ++ var) = none)

include hfree

/-- A step that assigns a variable that is not bound sets it. -/
theorem step_assign_eq : step env ⟨state, active, .start (.assign line var [] value) :: tasks, rounds, none⟩
    = perform ⟨state, .assign line var [] value :: active, .finish :: tasks, rounds, none⟩
        (Exec.ofEval fun locals => value.eval env locals) fun v m =>
          { m with state := { m.state with locals := Value.setNamed ("$" ++ var) v m.state.locals } } :=
  perform_assign_local (.inr hfree)

/-- Where its value is computed, it is set to that. -/
theorem step_assign {v : Value} {τ : Store} (hvalue : value.eval env state.locals state.store = .ok v τ) :
    step env ⟨state, active, .start (.assign line var [] value) :: tasks, rounds, none⟩
      = ⟨⟨τ, Value.setNamed ("$" ++ var) v state.locals⟩, .assign line var [] value :: active,
          .finish :: tasks, rounds, none⟩ := by
  rw [step_assign_eq hfree, perform, Exec.ofEval, hvalue]

/-- Where the step raises nothing, its value is computed. -/
theorem eval_of_step_assign
    (hnone : (step env ⟨state, active, .start (.assign line var [] value) :: tasks, rounds, none⟩).raised
      = none) :
    ∃ v τ, value.eval env state.locals state.store = .ok v τ := by
  cases hvalue : value.eval env state.locals state.store with
  | ok v τ => exact ⟨v, τ, rfl⟩
  | error fault τ =>
      rw [step_assign_eq hfree, perform, Exec.ofEval, hvalue] at hnone
      cases hnone

end

/-- A step that assigns the variable, where what is assigned is computed without side effects. -/
theorem RunsLike.step_blanked (h : m.RunsLike ρ name first m') (htags : ∀ tag ∈ env.tags, ¬first.ToCome tag)
    (hfree : env.binder.get? name = none) {line : Nat} {var : String} {value : Expr} {tasks : List Task}
    (hset : m'.tasks = .start (.assign line var [] value) :: tasks) (hname : "$" ++ var = name)
    (hquiet : m'.state.store.SameContents (stateLeft (value.eval env m'.state.locals m'.state.store)))
    (hnone : (m'.step env).raised = none) :
    ∃ ρ', (m.step env).RunsLike ρ' name first (m'.step env) := by
  obtain ⟨state, active, ts, rounds, raised⟩ := m
  obtain ⟨state', active', ts', rounds', raised'⟩ := m'
  have hmatch := h.alike ρ h.injective fun _ _ => rfl
  dsimp only at hset
  subst hset hname
  have hraised : raised' = raised := hmatch.raised_eq
  subst hraised
  cases raised' with
  | some fault => cases hnone
  | none =>
      have htasks := hmatch.tasks
      have hlocals := hmatch.state.locals
      dsimp only at htasks hlocals hquiet
      cases htasks with
      | @start s ts tasks unread rest =>
          obtain ⟨v, τ, hvalue⟩ := eval_of_step_assign hfree hnone
          obtain ⟨k, -, hrenamed⟩ := Expr.renames_eval h.injective (h.keeps htags fun _ _ => rfl) value
            (hlocals.lookup_of_unread unread.expressions (List.mem_singleton_self value)) state.store
          have hnull : Expr.null.eval env state.locals state.store = .ok .null state.store := by
            rw [Expr.eval]
            rfl
          rw [Stmt.blank, if_pos rfl, step_assign hfree hnull, step_assign hfree hvalue]
          rw [hvalue] at hquiet
          refine ⟨_, h.putOff (k := k) rfl ?_ fun ρ' hbefore => ⟨⟨?_, ?_⟩, .finish hbefore.tasks.tail, rfl⟩⟩
          · have hrenamed := hrenamed state'.store.nextTag fun i _ => h.lines_up i
            rw [← hmatch.state.store_eq, hvalue] at hrenamed
            calc τ.nextTag = (stateLeft (EStateM.Result.ok v τ : EStateM.Result Fault Store Value)).nextTag :=
                rfl
              _ = state'.store.nextTag.advance k := by rw [hrenamed, nextTag_retagResult]
          · have hstore : state'.store = state.store.retag ρ' state'.store.nextTag := hbefore.state.store_eq
            calc τ = { state'.store with nextTag := τ.nextTag } := hquiet.eq
              _ = { state.store.retag ρ' state'.store.nextTag with nextTag := τ.nextTag } := by rw [← hstore]
              _ = state.store.retag ρ' τ.nextTag := rfl
          · exact hbefore.state.locals.setNamed fun hne => absurd rfl hne

/-! ## Runs -/

theorem after_succ (n : Nat) : m.after env (n + 1) = (m.after env n).step env := after_add env m n 1

/-- A machine that halted does nothing more. -/
theorem step_of_halted (h : m.Halted) : m.step env = m := by
  obtain ⟨state, active, tasks, rounds, raised⟩ := m
  rcases h with htasks | hraised
  · dsimp only at htasks
    subst htasks
    cases raised <;> rfl
  · cases raised with
    | none => cases hraised
    | some fault => rfl

theorem after_of_halted (h : m.Halted) (n : Nat) : m.after env n = m := by
  induction n with
  | zero => rfl
  | succ n ih => rw [after, step_of_halted h, ih]

/-- A machine is the same wherever it halted. -/
theorem after_eq_of_halted {n k : Nat} (hn : (m.after env n).Halted) (hk : (m.after env k).Halted) :
    m.after env n = m.after env k := by
  rcases Nat.le_total n k with h | h
  · rw [← Nat.add_sub_of_le h, after_add, after_of_halted hn]
  · rw [← Nat.add_sub_of_le h, after_add, after_of_halted hk]

/-- A machine that ends without a fault raises none on its way. -/
theorem raised_of_ended {n : Nat} (htasks : (m.after env n).tasks = [])
    (hraised : (m.after env n).raised = none) (k : Nat) : (m.after env k).raised = none := by
  by_cases hk : (m.after env k).Halted
  · rw [after_eq_of_halted hk (.inl htasks), hraised]
  · exact Option.not_isSome_iff_eq_none.mp (not_or.mp hk).2

end Machine

section

variable {p : Program} {env : Environment} {σ τ : Store} {locals : Locals} {targets : List String}

/-- A run without a fault, step by step. -/
theorem Program.run_ok_iff : p.run env σ = .ok locals τ ↔
    ∃ n, ((Machine.start p σ).after env n).tasks = [] ∧ ((Machine.start p σ).after env n).raised = none ∧
      ((Machine.start p σ).after env n).state = ⟨τ, locals⟩ := by
  have hdoes : Machine.Does env (Machine.start p σ) [] [] [] id (Inside 0) _ := p.does_run σ
  unfold Program.run
  cases hresult : Stmt.runAll env p.statements ⟨σ, []⟩ with
  | ok u s =>
      rw [hresult] at hdoes
      obtain ⟨n, begun, -, hafter⟩ := hdoes
      refine ⟨fun h => ?_, fun ⟨k, htasks, hraised, hstate⟩ => ?_⟩
      · cases h
        exact ⟨n, by rw [hafter], by rw [hafter], by rw [hafter]⟩
      · have hhalted : ((Machine.start p σ).after env n).Halted := .inl (by rw [hafter])
        rw [Machine.after_eq_of_halted (.inl htasks) hhalted, hafter] at hstate
        dsimp only at hstate
        rw [hstate]
  | error fault s =>
      rw [hresult] at hdoes
      obtain ⟨n, begun, -, inner, outer, left, cause, hafter, -⟩ := hdoes
      refine ⟨fun h => (by cases h), fun ⟨k, htasks, hraised, _⟩ => ?_⟩
      have hnone := Machine.raised_of_ended htasks hraised n
      rw [hafter] at hnone
      cases hnone

/-- A script with blanked values and the script itself, before the first step. -/
theorem Machine.runsLike_start {name : String} (htags : ∀ tag ∈ σ.tags, ¬σ.nextTag.ToCome tag)
    (hunread : Unread name p.allStatements) :
    (Machine.start (p.blank name) σ).RunsLike id name σ.nextTag (Machine.start p σ) := by
  refine ⟨Function.injective_id, fun _ _ => rfl, ⟨0, rfl⟩, fun _ => rfl, fun ρ _ hsame => ?_⟩
  have htasks : TasksMatch ρ name (blockTasks (Stmt.blankAll name p.statements) ++ [])
      (blockTasks p.statements ++ []) := TasksMatch.nil.block hunread
  rw [List.append_nil, List.append_nil] at htasks
  exact ⟨⟨(Store.retag_of_kept fun tag htag => hsame tag (htags tag htag)).symm, .nil⟩, htasks, rfl⟩

/-- A script that ends without a fault and the script with blanked values, after every number of steps. -/
theorem Machine.runsLike_after {name : String}
    (hfound : ∃ f ∈ (check p env.binder.names targets).findings, f.issue = .neverRead name)
    (htags : ∀ tag ∈ σ.tags ++ env.tags, ¬σ.nextTag.ToCome tag)
    (hcalls : p.SetsHarmlessly name env σ)
    (hrun : p.run env σ = .ok locals τ) (n : Nat) :
    ∃ ρ, ((Machine.start (p.blank name) σ).after env n).RunsLike ρ name σ.nextTag
      ((Machine.start p σ).after env n) := by
  obtain ⟨hunknown, hunread⟩ := not_read_of_finding hfound
  obtain ⟨hstore, henv⟩ := List.forall_mem_append.mp htags
  obtain ⟨k, htasks, hraised, -⟩ := Program.run_ok_iff.mp hrun
  have hfree : env.binder.get? name = none := by
    rw [Binder.mem_names, Binder.contains, Option.isSome_iff_ne_none, not_not] at hunknown
    exact hunknown
  induction n with
  | zero => exact ⟨id, Machine.runsLike_start hstore hunread⟩
  | succ n ih =>
      obtain ⟨ρ, h⟩ := ih
      rw [after_succ, after_succ]
      by_cases hset : ∃ line var value tasks,
          ((Machine.start p σ).after env n).tasks = .start (.assign line var [] value) :: tasks ∧
            "$" ++ var = name
      · obtain ⟨line, var, value, tasks, hset, hname⟩ := hset
        refine h.step_blanked henv hfree hset hname (Expr.sameContents_eval (hcalls n _ _ _ _ hset hname)) ?_
        rw [← after_succ]
        exact Machine.raised_of_ended htasks hraised (n + 1)
      · exact ⟨ρ, h.step henv fun line var value tasks htasks hname =>
          hset ⟨line, var, value, tasks, htasks, hname⟩⟩

/-- Whether states of runs are the same but for what a variable holds, and for a renaming of the tags that were
given out since the first.  It keeps different tags different, and those of before as they are. -/
def RunState.SameBut (name : String) (first : Tag) (s s' : RunState) : Prop :=
  ∃ ρ, Function.Injective ρ ∧ (∀ tag, ¬first.ToCome tag → ρ tag = tag) ∧ s.Matches ρ name s'

/-- The states of a script with blanked values and of the script itself. -/
theorem Machine.RunsLike.sameBut {ρ : Tag → Tag} {name : String} {first : Tag} {m m' : Machine}
    (h : m.RunsLike ρ name first m') : m.state.SameBut name first m'.state :=
  ⟨ρ, h.injective, h.kept, (h.alike ρ h.injective fun _ _ => rfl).state⟩

/-- A script that counts its context for a variable that it does not read, and makes a list for its result. -/
def countedInVain : Program :=
  ⟨[.assign 1 "x" [] (.list [.call "COUNT" [.var "ctxC"]]), .assign 2 "y" [] (.list [.num (.int 2)]),
    .assign 3 "result" [] (.var "y")], "SET $x = [COUNT($ctxC)]\nSET $y = [2]\nSET $result = $y\n"⟩

/-- A record, which is all of its context, and its result. -/
def recordEnv : Environment :=
  ⟨⟨[⟨"$ctxI", .mapping 0, .literal⟩, ⟨"$ctxC", .list ⟨0, none, 0⟩ [.mapping 0], .collection⟩,
    ⟨"$result", .target (.path "result" ["result"]) (some (.path "result" ["result"])), .target⟩]⟩,
    .null, .null⟩

/-- The contents of the record. -/
def recordStore : Store := ⟨#[[(.str "result", .null)]], #[], 1, ⟨1, some 0, 0⟩⟩

end

end Rubric.Script
