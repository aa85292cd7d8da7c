import Rubric.Proofs.Evaluator.Opening
import Rubric.Proofs.Script.LocalPoints

/-!
# The moments of a run

While an evaluator runs a script for one item after the other, every point of every execution is a
moment of the run.  A run passes the moments at which a probe alone can make a difference to it.  Where
items are handled locally, everything stays within what may be read and written from the first item
on, at every moment.

* `Evaluator.withProbe`, `Run.Passes` : runs with a probe at every moment, and the moments that a run
  passes;
* `Session.StaysWithin` : sessions in which no more was written than may be;
* `carryOut_withProbe` : a probe that is idle in such sessions makes no difference to what is carried
  out;
* `Run.exists_passes` : a completed run that processed an item passes a moment.
-/

namespace Rubric

open Rubric.Script
open Eval StateFrame

/-- A program as what is run for every item, with a probe at every point. -/
def probedJob (probe : Probe) (program : Program) (env : Environment) : Eval Unit := do
  let _ ← program.runProbed probe env
  return ()

/-- The engine of the script language, with a probe at every point of the scripts. -/
def probedEngine (probe : Probe) : Engine := fun script cache => do
  let (program, cache) ← Eval.ofExcept (compileCached (← get) true cache script)
  return (probedJob probe program, cache)

namespace Evaluator

/-- An evaluator of scripts, with a probe at every point of the scripts. -/
def withProbe (e : Evaluator) (probe : Probe) : Evaluator := { e with engine := probedEngine probe }

/-- Whether a run passes a moment: some script is run in an environment and reaches a point with some
local variables and some contents.  A probe that is idle at all other moments makes a difference. -/
def Run.Passes (e : Evaluator) (r : Run) (s : Session) (env : Environment) (locals : Locals)
    (τ : Store) : Prop :=
  ∃ probe : Probe,
    (∀ env' locals' τ', (env', locals', τ') ≠ (env, locals, τ) → probe env' locals' τ' = .ok () τ') ∧
    r.perform (e.withProbe probe) s ≠ r.perform e s

end Evaluator

/-! ## Sessions that stay within -/

/-- Whether a session agrees with itself on what may be read, and nothing but what may be written was
written since some contents. -/
structure Session.StaysWithin (F : Scope) (B : Binder → Prop) (start : Store) (s : Session) : Prop where
  sees : s.Sees F B s
  rewrites : F.rewrites start s.store

/-- The sessions that stay within, each compared to itself. -/
def selfFrame (F : Scope) (B : Binder → Prop) (start : Store) : StateFrame Session where
  sees s s' := s' = s ∧ s.StaysWithin F B start
  rewrites _ _ := True
  refl _ := trivial
  trans _ _ := trivial

section

variable {F : Scope} {B : Binder → Prop} {start : Store} {α : Type} {post : α → Prop}

/-- Local actions stay within. -/
theorem followsScope_selfFrame : FollowsScope F B (selfFrame F B start) := by
  intro α action post h
  constructor
  · rintro s _ ⟨rfl, hs⟩ a t hok
    obtain ⟨ha, ht, t', hok', hsees, -⟩ := h.ok hs.sees hok
    rw [hok] at hok'
    cases hok'
    exact ⟨ha, trivial, t, hok, ⟨rfl, hsees, F.trans hs.rewrites ht⟩, trivial⟩
  · rintro s _ ⟨rfl, hs⟩ fault t herror
    obtain ⟨ht, t', herror', hsees, -⟩ := h.error hs.sees herror
    rw [herror] at herror'
    cases herror'
    exact ⟨trivial, t, herror, ⟨rfl, hsees, F.trans hs.rewrites ht⟩, trivial⟩

/-- Actions that are alike for sessions that stay within do the same in each. -/
theorem eq_of_alike_selfFrame {action action' : Action α}
    (h : (selfFrame F B start).Alike action action' post) {s : Session} (hs : s.StaysWithin F B start) :
    action s = action' s := by
  cases hresult : action s with
  | ok a t =>
      obtain ⟨-, -, _, hresult', ⟨rfl, -⟩, -⟩ := h.ok ⟨rfl, hs⟩ hresult
      exact hresult'.symm
  | error fault t =>
      obtain ⟨-, _, hresult', ⟨rfl, -⟩, -⟩ := h.error ⟨rfl, hs⟩ hresult
      exact hresult'.symm

/-- What does the same as a local action in every session that stays within is alike. -/
theorem alike_selfFrame_of_eq {action action' : Action α} (h : (selfFrame F B start).Local action post)
    (hsame : ∀ s, s.StaysWithin F B start → action' s = action s) :
    (selfFrame F B start).Alike action action' post where
  ok s s' hs a t hok := by
    obtain ⟨ha, ht, t', hok', hsees, ht'⟩ := h.ok hs hok
    obtain ⟨rfl, hwithin⟩ := hs
    exact ⟨ha, ht, t', (hsame _ hwithin).trans hok', hsees, ht'⟩
  error s s' hs fault t herror := by
    obtain ⟨ht, t', herror', hsees, ht'⟩ := h.error hs herror
    obtain ⟨rfl, hwithin⟩ := hs
    exact ⟨ht, t', (hsame _ hwithin).trans herror', hsees, ht'⟩

end

namespace Evaluator

/-! ## The same hooks -/

section

variable {e e' : Evaluator} (hbefore : e'.before = e.before) (hafter : e'.after = e.after)

include hbefore hafter

/-- Evaluators with the same hooks process items in the same way. -/
theorem processFrom_congr (p : Plan) (records remaining : List Record) :
    ∀ (seen : SeenKeys) (count : Nat),
      processFrom e' p records seen count remaining = processFrom e p records seen count remaining := by
  have hitem (item : Record) : processItem e' p records item = processItem e p records item := by
    simp only [processItem, handleItem, hbefore, hafter]
  induction remaining with
  | nil => exact fun _ _ => rfl
  | cons record remaining ih =>
      intro seen count
      simp only [processFrom, hitem, ih]

/-- They carry out plans in the same way. -/
theorem carryOut_congr (records : List Record) (full : Bool) (p : Plan) :
    e'.carryOut records full p = e.carryOut records full p := by
  simp only [carryOut, processFrom_congr hbefore hafter]

end

/-! ## Probes that are idle -/

/-- Whether in environments that an evaluator runs a script in, the script asks for nothing but what may
be read, and writes nothing but what may be written; there may be names that it does not mention. -/
structure ScriptWithin (F : Scope) (B : Binder → Prop) (names : List String) (p : Program) : Prop where
  unmentioned : ∀ name ∈ p.mentions, name ∉ names
  sets : SetsWithin F p.allStatements
  environment : ∀ env : Environment, B env.binder → env.classes.Within F.reads →
    env.subclasses.Within F.reads →
    ∃ env', env.SameBut names env' ∧ env'.Within F ∧ env'.MayWrite F

section

variable {F : Scope} {B : Binder → Prop} {start : Store} {names : List String} {p : Program}
  {classes subclasses : Value} {probe : Probe}

/-- Such a script is local. -/
theorem ScriptWithin.local_programJob (hp : ScriptWithin F B names p) {env : Environment}
    (hbinds : B env.binder) (hclasses : env.classes.Within F.reads)
    (hsubclasses : env.subclasses.Within F.reads) : Eval.Local F (programJob p env) fun _ => True := by
  obtain ⟨env', hsame, henv, hwrites⟩ := hp.environment env hbinds hclasses hsubclasses
  rw [programJob, Program.run_sameBut hsame hp.unmentioned]
  exact (Program.local_runWhere henv hwrites hp.sets).bind fun _ _ => local_pure trivial

/-- A probe that is idle where everything stays within makes no difference to running such a script. -/
theorem ScriptWithin.alike_execute (hp : ScriptWithin F B names p) (hclasses : classes.Within F.reads)
    (hsubclasses : subclasses.Within F.reads)
    (hidle : ∀ s : Session, s.StaysWithin F B start →
      probe.IdleUnder (.make s.store s.binder classes subclasses) (Locals.StayWithin F start)) :
    (selfFrame F B start).Alike (execute (programJob p) classes subclasses)
      (execute (probedJob probe p) classes subclasses) fun _ => True := by
  have hlocal : Action.Local F B (execute (programJob p) classes subclasses) fun _ => True :=
    local_execute hclasses hsubclasses fun _ => hp.local_programJob
  refine alike_selfFrame_of_eq (followsScope_selfFrame hlocal) fun s hs => ?_
  obtain ⟨env', hsame, henv, hwrites⟩ :=
    hp.environment (.make s.store s.binder classes subclasses) hs.sees.binds
      (by simp only [Environment.make]; split; exacts [hclasses, Value.within_null])
      (by simp only [Environment.make]; split; exacts [hsubclasses, Value.within_null])
  have hrun := Program.runProbed_eq (stepsKeep_of_local hsame henv hwrites) (hidle s hs)
    (fun t ht => fun u hu => hp.sets u (List.mem_singleton.mp hu ▸ ht)) hp.unmentioned
    ⟨hs.sees.store.closed, by simp, hs.rewrites⟩
  have hjob : probedJob probe p (.make s.store s.binder classes subclasses) s.store
      = programJob p (.make s.store s.binder classes subclasses) s.store := by
    simp only [probedJob, programJob, bind, EStateM.bind, hrun.1]
  show Action.ofEval _ s = Action.ofEval _ s
  rw [Action.ofEval, Action.ofEval, hjob]

/-- A probe that is idle where everything stays within makes no difference to carrying out a plan. -/
theorem carryOut_withProbe {e : Evaluator} {records : List Record} (he : ItemsAreLocal F B e records)
    {key : Selector} {relation : Value} {result : Target} (hkey : key.Within F.reads)
    (hrelation : relation.Within F.reads) (hresult : result.selector.Within F.reads)
    (hp : ScriptWithin F B names p) (hclasses : classes.Within F.reads)
    (hsubclasses : subclasses.Within F.reads)
    (hidle : ∀ s : Session, s.StaysWithin F B start →
      probe.IdleUnder (.make s.store s.binder classes subclasses) (Locals.StayWithin F start))
    (full : Bool) {s : Session} (hs : s.StaysWithin F B start) :
    (e.withProbe probe).carryOut records full
        ⟨key, relation, result, probedJob probe p, classes, subclasses⟩ s
      = e.carryOut records full ⟨key, relation, result, programJob p, classes, subclasses⟩ s := by
  have halike := alike_carryOut (p := ⟨key, relation, result, programJob p, classes, subclasses⟩)
    followsScope_selfFrame he ⟨hkey, hrelation, hresult⟩
    (hp.alike_execute hclasses hsubclasses hidle) full
  have hbefore : (e.withProbe probe).before = e.before := rfl
  have hafter : (e.withProbe probe).after = e.after := rfl
  rw [carryOut_congr hbefore hafter]
  exact (eq_of_alike_selfFrame halike hs).symm

end

/-- Preparing a script that compiles, with a probe. -/
theorem prepare_withProbe_of_ok {e : Evaluator} {probe : Probe} {script : Value} {s : Session}
    {prepared : Program × ProgramCache}
    (h : compileCached s.store true s.programs script = .ok prepared) :
    (e.withProbe probe).prepare script s
      = .ok (probedJob probe prepared.1) { s with programs := prepared.2 } := by
  have hengine : probedEngine probe script s.programs s.store
      = .ok (probedJob probe prepared.1, prepared.2) s.store := by
    simp only [probedEngine, bind, EStateM.bind, get_ok, h]
    rfl
  have hprobed : (e.withProbe probe).engine = probedEngine probe := rfl
  rw [prepare_eq, hprobed, hengine]

/-- Preparing one that does not. -/
theorem prepare_withProbe_of_error {e : Evaluator} {probe : Probe} {script : Value} {s : Session}
    {fault : Fault} (h : compileCached s.store true s.programs script = .error fault) :
    (e.withProbe probe).prepare script s = .error fault s := by
  have hengine : probedEngine probe script s.programs s.store = .error fault s.store := by
    simp only [probedEngine, bind, EStateM.bind, get_ok, h]
    rfl
  have hprobed : (e.withProbe probe).engine = probedEngine probe := rfl
  rw [prepare_eq, hprobed, hengine]

/-! ## The first moment -/

/-- A probe that stops at one moment and is idle at all others. -/
theorem exists_probe (env : Environment) (locals : Locals) (τ : Store) (fault : Fault) :
    ∃ probe : Probe, probe env locals τ = .error fault τ ∧
      ∀ env' locals' τ', (env', locals', τ') ≠ (env, locals, τ) →
        probe env' locals' τ' = .ok () τ' := by
  classical
  exact ⟨fun env' locals' τ' =>
    if (env', locals', τ') = (env, locals, τ) then .error fault τ' else .ok () τ',
    if_pos rfl, fun _ _ _ hne => if_neg hne⟩

/-- Whether there is a moment, without local variables, such that a probe that stops there makes a
computation fail. -/
def Stoppable {α : Type} (result : Probe → EStateM.Result Fault Session α) : Prop :=
  ∃ env τ, ∀ probe fault, probe env [] τ = .error fault τ → ∃ t, result probe = .error fault t

section

variable {α β : Type} {s t : Session}

/-- An action that can be stopped, can be stopped after another. -/
theorem Stoppable.after {first : Action α} {second : Probe → α → Action β} {a : α}
    (h : Stoppable fun probe => second probe a t) (hfirst : first s = .ok a t) :
    Stoppable fun probe => (first >>= second probe) s := by
  obtain ⟨env, τ, hstops⟩ := h
  refine ⟨env, τ, fun probe fault hprobe => ?_⟩
  obtain ⟨u, hu⟩ := hstops probe fault hprobe
  exact ⟨u, (bind_of_ok hfirst).trans hu⟩

/-- It can be stopped whatever comes after it. -/
theorem Stoppable.before {first : Probe → Action α} {second : Probe → α → Action β}
    (h : Stoppable fun probe => first probe s) :
    Stoppable fun probe => (first probe >>= second probe) s := by
  obtain ⟨env, τ, hstops⟩ := h
  refine ⟨env, τ, fun probe fault hprobe => ?_⟩
  obtain ⟨t, ht⟩ := hstops probe fault hprobe
  exact ⟨t, bind_of_error ht⟩

end

/-- Running a script for an item can be stopped, at its first point. -/
theorem stoppable_execute (program : Program) (classes subclasses : Value) (s : Session) :
    Stoppable fun probe => execute (probedJob probe program) classes subclasses s := by
  refine ⟨.make s.store s.binder classes subclasses, s.store, fun probe fault hprobe => ⟨s, ?_⟩⟩
  have hpause : pause probe (.make s.store s.binder classes subclasses) ⟨s.store, []⟩
      = .error fault ⟨s.store, []⟩ := by
    simp only [pause, Exec.ofEval, hprobe]
  have hall : Stmt.runAllProbed probe (.make s.store s.binder classes subclasses) program.statements
      ⟨s.store, []⟩ = .error fault ⟨s.store, []⟩ := by
    cases program.statements with
    | nil => rw [Stmt.runAllProbed, hpause]
    | cons statement statements => rw [Stmt.runAllProbed, bind_of_error hpause]
  have hjob : probedJob probe program (.make s.store s.binder classes subclasses) s.store
      = .error fault s.store := by
    rw [probedJob, bind_of_error]
    rw [Program.runProbed, hall]
  show Action.ofEval _ s = _
  rw [Action.ofEval, hjob]

section

variable {e : Evaluator} {records : List Record} {program : Program} {p : Plan}

/-- Handling an item can be stopped where it succeeds without a probe. -/
theorem stoppable_handleItem {item : Record} {s t : Session} {u : Unit}
    (h : handleItem e { p with job := programJob program } records item s = .ok u t) :
    Stoppable fun probe => handleItem e { p with job := probedJob probe program } records item s := by
  have hrelates (job : Environment → Eval Unit) : ({ p with job := job } : Plan).relates = p.relates :=
    rfl
  simp only [handleItem, hrelates] at h ⊢
  obtain ⟨context, _, hcontext, h⟩ := bind_ok.mp h
  obtain ⟨_, _, hnote, h⟩ := bind_ok.mp h
  obtain ⟨_, _, hbefore, h⟩ := bind_ok.mp h
  obtain ⟨_, _, hbindItem, h⟩ := bind_ok.mp h
  obtain ⟨list, _, hlist, h⟩ := bind_ok.mp h
  obtain ⟨_, _, hbindContext, h⟩ := bind_ok.mp h
  obtain ⟨_, s', hnoteExecute, -⟩ := bind_ok.mp h
  -- none of these steps looks at the script
  refine .after (.after (.after (.after (.after (.after (.after ?_ hnoteExecute) hbindContext) hlist)
    hbindItem) hbefore) hnote) hcontext
  exact (stoppable_execute program p.classes p.subclasses s').before

/-- So can processing records among which is an item. -/
theorem stoppable_processFrom (remaining : List Record) {s t : Session} {seen : SeenKeys}
    {count processed : Nat}
    (h : processFrom e { p with job := programJob program } records seen count remaining s
      = .ok processed t) (hitems : processed ≠ count) :
    Stoppable fun probe =>
      processFrom e { p with job := probedJob probe program } records seen count remaining s := by
  have hkeyOf (job : Environment → Eval Unit) : ({ p with job := job } : Plan).keyOf = p.keyOf := rfl
  induction remaining generalizing s with
  | nil =>
      cases h
      exact absurd rfl hitems
  | cons record remaining ih =>
      simp only [processFrom, processItem, hkeyOf] at h ⊢
      obtain ⟨found, s₁, hfound, h⟩ := bind_ok.mp h
      refine .after ?_ hfound
      cases found with
      | none => exact ih h
      | some seen' =>
          obtain ⟨_, _, hitem, -⟩ := bind_ok.mp h
          obtain ⟨outer, _, htags, hitem⟩ := bind_ok.mp hitem
          obtain ⟨_, _, hhandled, -⟩ := bind_ok.mp hitem
          exact .before (.after (stoppable_handleItem hhandled).before htags)

/-- So can preparing a script and carrying out what is planned, where an item is processed. -/
theorem stoppable_carryOut (hengine : e.engine = scriptEngine) {script : Value} {full : Bool}
    {report : String} {n : Nat} {s t : Session}
    (h : (e.prepare script >>= fun job => e.carryOut records full { p with job := job }) s
      = .ok (report, n) t) (hn : n ≠ 0) :
    Stoppable fun probe => ((e.withProbe probe).prepare script >>= fun job =>
      (e.withProbe probe).carryOut records full { p with job := job }) s := by
  have hkeyOf (job : Environment → Eval Unit) : ({ p with job := job } : Plan).keyOf = p.keyOf := rfl
  have hbefore (probe : Probe) : (e.withProbe probe).before = e.before := rfl
  have hafter (probe : Probe) : (e.withProbe probe).after = e.after := rfl
  simp only [carryOut_congr (hbefore _) (hafter _)]
  obtain ⟨job, s₁, hprepared, h⟩ := bind_ok.mp h
  rw [prepare_eq, hengine, scriptEngine_eq] at hprepared
  cases hcompiled : compileCached s.store true s.programs script with
  | error fault => simp [hcompiled] at hprepared
  | ok prepared =>
      simp only [hcompiled] at hprepared
      cases hprepared
      have hprobed (probe : Probe) : (e.withProbe probe).prepare script s
          = .ok (probedJob probe prepared.1) { s with programs := prepared.2 } :=
        prepare_withProbe_of_ok hcompiled
      simp only [carryOut, hkeyOf] at h
      obtain ⟨_, _, hcounted, h⟩ := bind_ok.mp h
      obtain ⟨processed, _, hprocessed, h⟩ := bind_ok.mp h
      obtain ⟨_, _, _, h⟩ := bind_ok.mp h
      obtain ⟨_, _, _, h⟩ := bind_ok.mp h
      obtain ⟨_, _, _, h⟩ := bind_ok.mp h
      cases h
      -- the run is stopped where the first item is processed, after the items were counted
      have hstoppable : Stoppable fun probe =>
          e.carryOut records full { p with job := probedJob probe prepared.1 }
            { s with programs := prepared.2 } := by
        simp only [carryOut, hkeyOf]
        exact .after (stoppable_processFrom records hprocessed hn).before hcounted
      obtain ⟨env, τ, hstops⟩ := hstoppable
      refine ⟨env, τ, fun probe fault hprobe => ?_⟩
      obtain ⟨u, hu⟩ := hstops probe fault hprobe
      exact ⟨u, (bind_of_ok (hprobed probe)).trans hu⟩

end

/-- A completed run of scripts that processed an item passes a moment: the one at which the script is
begun for its first item. -/
theorem Run.exists_passes {e : Evaluator} (hengine : e.engine = scriptEngine) {r : Run}
    {s s' : Session} {report : String} {n : Nat} (h : r.perform e s = (.completed report n, s'))
    (hn : n ≠ 0) : ∃ env τ, r.Passes e s env [] τ := by
  have hopening (probe : Probe) : r.opening (e.withProbe probe) = r.opening e := by cases r <;> rfl
  have hstoppable : Stoppable fun probe => (r.plan (e.withProbe probe) >>=
      (e.withProbe probe).carryOut r.records r.isFull) { s with classification := .empty } := by
    have hsteps : ∃ t, (r.plan e >>= e.carryOut r.records r.isFull)
        { s with classification := .empty } = .ok (report, n) t := by
      rw [Run.perform_eq, settle] at h
      split at h
      · rename_i hsteps
        cases h
        exact ⟨_, hsteps⟩
      · cases h
    obtain ⟨t, hsteps⟩ := hsteps
    rw [Run.steps_eq] at hsteps
    simp only [Run.steps_eq, hopening]
    obtain ⟨opened, _, hopened, hsteps⟩ := bind_ok.mp hsteps
    obtain ⟨relation, _, hrelated, hsteps⟩ := bind_ok.mp hsteps
    obtain ⟨_, _, hshared, hsteps⟩ := bind_ok.mp hsteps
    exact .after (.after (.after (stoppable_carryOut (p := ⟨opened.1, relation, opened.2, fun _ => pure (),
      r.classes, r.subclasses⟩) hengine hsteps hn) hshared) hrelated) hopened
  obtain ⟨env, τ, hstops⟩ := hstoppable
  -- a probe that fails there only makes a difference to the run, so the run passes there
  obtain ⟨probe, hstop, helsewhere⟩ := exists_probe env [] τ (.name (.shadowing ""))
  refine ⟨env, τ, probe, helsewhere, ?_⟩
  obtain ⟨t, hfails⟩ := hstops probe _ hstop
  have hfailed : (r.perform (e.withProbe probe) s).1 = .failed (.name (.shadowing "")) := by
    rw [Run.perform_eq, settle]
    simp only at hfails
    rw [hfails]
  intro hsame
  rw [hsame, h] at hfailed
  cases hfailed

end Evaluator

end Rubric
