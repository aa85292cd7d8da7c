import Rubric.Proofs.Evaluator.Bindings

/-!
# Full runs and what was run before

An evaluator keeps its binder, its buckets, its description and the programs of its scripts from run
to run.  A full run binds all names that runs bind before it looks at them, so none of that shows in
it.

* `Call.descends` : no call changes other bindings than those of the reserved names, or keeps a wrong
  program;
* `run_afresh` : a full run does what it does on a new evaluator.
-/

namespace Rubric

open Rubric.Script

/-! ## The programs that are kept -/

/-- What compiles is a text. -/
theorem compileText_of_compile {σ : Store} {script : Value} {program : Program}
    (h : compile σ true script = .ok program) :
    ∃ text, script = .str text ∧ compileText true text = .ok program := by
  unfold compile at h
  simp only [bind, Except.bind] at h
  split at h
  · cases h
  · split at h
    · exact ⟨_, rfl, h⟩
    · cases h

/-- With right programs at hand, a script has the program that it is compiled to, and the programs
kept are right again. -/
theorem compileCached_sound {cache : ProgramCache} (hcache : CacheIsSound cache) (σ : Store)
    (script : Value) :
    (compileCached σ true cache script).map Prod.fst = compile σ true script ∧
      ∀ prepared, compileCached σ true cache script = .ok prepared → CacheIsSound prepared.2 := by
  simp only [compileCached, compile, bind, Except.bind]
  cases script.requireHashable σ with
  | error fault => exact ⟨rfl, by simp⟩
  | ok u =>
      cases script with
      | str text =>
          simp only
          cases hkept : cache.lookup text with
          | some program =>
              rw [hcache text program hkept]
              refine ⟨rfl, ?_⟩
              rintro prepared ⟨rfl⟩
              exact hcache
          | none =>
              cases hprogram : compileText true text with
              | error fault => exact ⟨rfl, by simp [Except.map]⟩
              | ok program =>
                  refine ⟨rfl, ?_⟩
                  rintro prepared ⟨rfl⟩
                  -- the new entry is right, and it hides none but entries of the same text
                  intro text' program' hlookup
                  rw [List.lookup_cons] at hlookup
                  by_cases htext : text' = text
                  · subst htext
                    simp only [beq_self_eq_true, Option.some.injEq] at hlookup
                    rw [hprogram, hlookup]
                  · have hother : (text' == text) = false := by simpa using htext
                    rw [hother] at hlookup
                    exact hcache text' program' hlookup
      | _ => exact ⟨rfl, by simp⟩

/-- No programs are right ones. -/
theorem cacheIsSound_nil : CacheIsSound [] := by
  intro text program h
  simp at h

/-- What the engine of the script language prepares, step by step. -/
theorem scriptEngine_eq (script : Value) (cache : ProgramCache) (σ : Store) :
    scriptEngine script cache σ = match compileCached σ true cache script with
      | .ok prepared => .ok (programJob prepared.1, prepared.2) σ
      | .error fault => .error fault σ := by
  simp only [scriptEngine, bind, EStateM.bind, get_ok]
  cases compileCached σ true cache script <;> rfl

/-- The engine of the script language prepares a script the same whatever programs it has kept. -/
theorem scriptEngine_isTransparent : Engine.IsTransparent scriptEngine where
  same script cache hcache := by
    -- with right programs or none, the script has the program that it is compiled to
    have hprogram : ∀ cache, CacheIsSound cache → ∀ σ, (scriptEngine script).run' cache σ
        = match compile σ true script with
          | .ok program => .ok (programJob program) σ
          | .error fault => .error fault σ := by
      intro cache hcache σ
      rw [← (compileCached_sound hcache σ script).1]
      simp only [StateT.run', Functor.map, EStateM.map, scriptEngine_eq]
      cases compileCached σ true cache script <;> rfl
    funext σ
    rw [hprogram cache hcache, hprogram [] cacheIsSound_nil]
  sound script cache σ prepared σ' hcache h := by
    rw [scriptEngine_eq] at h
    cases hcached : compileCached σ true cache script with
    | error fault => simp [hcached] at h
    | ok found =>
        simp only [hcached, EStateM.Result.ok.injEq] at h
        rw [← h.1]
        exact (compileCached_sound hcache σ script).2 found hcached

/-! ## Hooks that leave the bindings alone -/

/-- A computation on what values contain and on the classification, as an action. -/
def Action.ofTallies {α : Type} (action : EStateM Fault (Store × Classification Record) α) :
    Action α := fun s =>
  match action (s.store, s.classification) with
  | .ok a (σ, c) => .ok a { s with store := σ, classification := c }
  | .error fault (σ, c) => .error fault { s with store := σ, classification := c }

/-- Whether a hook goes by what values contain and by the classification only, and changes nothing
else. -/
def Hook.IsLocal (hook : Hook) : Prop :=
  ∃ action : Record → List Record → EStateM Fault (Store × Classification Record) Unit,
    ∀ item context, hook item context = Action.ofTallies (action item context)

/-- A hook that computes on values goes by these only. -/
theorem Hook.isLocal_ofEval (hook : Record → List Record → Eval Unit) :
    Hook.IsLocal fun item context => Action.ofEval (hook item context) := by
  refine ⟨fun item context tallies => match hook item context tallies.1 with
    | .ok u σ => .ok u (σ, tallies.2)
    | .error fault σ => .error fault (σ, tallies.2), fun item context => ?_⟩
  funext s
  simp only [Action.ofEval, Action.ofTallies]
  cases hook item context s.store <;> rfl

namespace Action

variable {α β : Type}

/-- Computations on values and the classification agree. -/
theorem agree_ofTallies {names : List String} {history : Prop}
    (action : EStateM Fault (Store × Classification Record) α) :
    Agree names names history (ofTallies action) (ofTallies action) := by
  intro s s' hs
  unfold ofTallies
  rw [← hs.store_eq, ← hs.classification_eq]
  cases action (s.store, s.classification) with
  | ok a tallies => exact ⟨rfl, { hs with store_eq := rfl, classification_eq := rfl }⟩
  | error fault tallies => exact ⟨rfl, names, { hs with store_eq := rfl, classification_eq := rfl }⟩

/-- Whether an action keeps a property of sessions, where it fails as well. -/
def Keeps (P : Session → Prop) (action : Action α) : Prop :=
  ∀ s, P s → match action s with
    | .ok _ t => P t
    | .error _ t => P t

/-- Answering keeps every property. -/
theorem keeps_pure {P : Session → Prop} (a : α) : Keeps P (pure a : Action α) := fun _ hs => hs

/-- Failing keeps every property. -/
theorem keeps_throw {P : Session → Prop} (fault : Fault) : Keeps P (throw fault : Action α) :=
  fun _ hs => hs

/-- Reading the session keeps every property. -/
theorem keeps_get {P : Session → Prop} : Keeps P (get : Action Session) := fun _ hs => hs

/-- Reading a bound name keeps every property. -/
theorem keeps_bound {P : Session → Prop} (name : String) : (bound name).Keeps P := by
  intro s hs
  unfold bound
  cases s.binder.get name <;> exact hs

/-- Two actions in a row keep a property where each does. -/
theorem Keeps.bind {P : Session → Prop} {first : Action α} {second : α → Action β}
    (hfirst : Keeps P first) (hsecond : ∀ a, Keeps P (second a)) : Keeps P (first >>= second) := by
  intro s hs
  have ht := hfirst s hs
  show match EStateM.bind first second s with
    | .ok _ t => P t
    | .error _ t => P t
  unfold EStateM.bind
  cases hone : first s with
  | ok a t =>
      rw [hone] at ht
      exact hsecond a t ht
  | error fault t =>
      rw [hone] at ht
      exact ht

end Action

/-! ## What planning keeps -/

namespace Evaluator

/-- The names that planning a run binds: the reserved ones, but for the current item and context. -/
def plannedNames : List String :=
  (reservedBindings.map Prod.fst).filter fun name => name ≠ "$ctxI" ∧ name ≠ "$ctxC"

/-- Whether a property of sessions is kept by what planning a run does, preparing the script aside:
new contents of values, and binding the names that are planned. -/
structure KeptByPlanning (P : Session → Prop) : Prop where
  values : ∀ (s : Session) (σ : Store), P s → P { s with store := σ }
  bind : ∀ name ∈ plannedNames, ∀ value, (Action.bind name value).Keeps P

namespace KeptByPlanning

variable {P : Session → Prop} {α : Type}

/-- Computations on values keep the property. -/
theorem ofEval (h : KeptByPlanning P) (action : Eval α) : (Action.ofEval action).Keeps P := by
  intro s hs
  unfold Action.ofEval
  cases action s.store with
  | ok a σ => exact h.values s σ hs
  | error fault σ => exact h.values s σ hs

/-- Compiling an expression keeps the property. -/
theorem compiled (h : KeptByPlanning P) (e : Evaluator)
    (compile : Resolver → Store → Value → Except Fault α) (expression : Value) :
    (e.compiled compile expression).Keeps P :=
  Action.keeps_get.bind fun _ => h.ofEval _

/-- Binding a name to a compiled expression keeps the property. -/
theorem bindCompiled (h : KeptByPlanning P) (e : Evaluator) {name : String}
    (hname : name ∈ plannedNames) (compile : Resolver → Store → Value → Except Fault Selector)
    (expression : Value) : (e.bindCompiled name compile expression).Keeps P :=
  (h.compiled e compile expression).bind fun _ => h.bind name hname _

/-- Binding the relation and the descriptions of labels keeps the property. -/
theorem bindShared (h : KeptByPlanning P) (relation classes subclasses : Value) :
    (bindShared relation classes subclasses).Keeps P :=
  (h.bind _ (by decide) relation).bind fun _ =>
    (h.ofEval _).bind fun _ =>
      (h.bind _ (by decide) _).bind fun _ =>
        (h.ofEval _).bind fun _ => h.bind _ (by decide) _

/-- Binding the result field keeps the property. -/
theorem bindResultKey (h : KeptByPlanning P) (e : Evaluator) (expression : Value) :
    (e.bindResultKey expression).Keeps P :=
  (h.compiled e _ expression).bind fun _ =>
    (h.bind _ (by decide) _).bind fun _ => Action.keeps_pure _

/-- Finding the result field keeps the property. -/
theorem resultTarget (h : KeptByPlanning P) (e : Evaluator) (expression : Value) :
    (e.resultTarget expression).Keeps P := by
  unfold Evaluator.resultTarget
  split
  · exact h.bindResultKey e expression
  · refine (Action.keeps_bound _).bind fun v => ?_
    split
    · exact Action.keeps_throw _
    · split
      · exact Action.keeps_pure _
      · exact h.bindResultKey e v

/-- Planning a full run keeps the property. -/
theorem fullPlan (h : KeptByPlanning P) {e : Evaluator}
    (hprepare : ∀ script, (e.prepare script).Keeps P) (request : Request) :
    (e.fullPlan request).Keeps P := by
  refine (h.compiled e _ _).bind fun key => ?_
  refine (h.compiled e _ _).bind fun result => ?_
  refine (h.compiled e _ _).bind fun obs => ?_
  refine (h.bindCompiled e (by decide) _ _).bind fun _ => ?_
  refine (h.bindCompiled e (by decide) _ _).bind fun _ => ?_
  refine (h.bindCompiled e (by decide) _ _).bind fun _ => ?_
  refine (h.bindCompiled e (by decide) _ _).bind fun _ => ?_
  refine (h.bind _ (by decide) _).bind fun _ => ?_
  refine (h.bind _ (by decide) _).bind fun _ => ?_
  refine (h.bind _ (by decide) _).bind fun _ => ?_
  refine (h.bind _ (by decide) _).bind fun _ => ?_
  refine (h.ofEval _).bind fun relation => ?_
  refine (h.bindShared _ _ _).bind fun _ => ?_
  exact (hprepare _).bind fun _ => Action.keeps_pure _

/-- Planning a simplified run keeps the property. -/
theorem simplePlan (h : KeptByPlanning P) {e : Evaluator}
    (hprepare : ∀ script, (e.prepare script).Keeps P) (request : SimpleRequest) :
    (e.simplePlan request).Keeps P := by
  refine (h.compiled e _ _).bind fun key => ?_
  refine (h.resultTarget e _).bind fun result => ?_
  refine (h.bind _ (by decide) _).bind fun _ => ?_
  refine (h.bind _ (by decide) _).bind fun _ => ?_
  refine (h.ofEval _).bind fun relation => ?_
  refine (h.bindShared _ _ _).bind fun _ => ?_
  exact (hprepare _).bind fun _ => Action.keeps_pure _

/-- Planning a run keeps the property. -/
theorem plan (h : KeptByPlanning P) {e : Evaluator}
    (hprepare : ∀ script, (e.prepare script).Keeps P) (r : Run) : (r.plan e).Keeps P := by
  cases r with
  | full values request => exact h.fullPlan hprepare request
  | simple values request => exact h.simplePlan hprepare request

end KeptByPlanning

end Evaluator

/-! ## What calls leave of the bindings -/

/-- Whether a session has some bindings, reserved names aside, and keeps right programs only. -/
structure Session.Descends (b : Binder) (s : Session) : Prop where
  binder_same : s.binder.SameBut (Evaluator.reservedBindings.map Prod.fst) b
  programs_sound : CacheIsSound s.programs

namespace Action

variable {α : Type} {b : Binder}

/-- Computations on values keep the bindings. -/
theorem descends_ofEval (action : Eval α) : (ofEval action).Keeps (Session.Descends b) := by
  intro s hs
  unfold ofEval
  cases action s.store with
  | ok a σ => exact ⟨hs.binder_same, hs.programs_sound⟩
  | error fault σ => exact ⟨hs.binder_same, hs.programs_sound⟩

/-- Computations on values and the classification keep the bindings. -/
theorem descends_ofTallies (action : EStateM Fault (Store × Classification Record) α) :
    (ofTallies action).Keeps (Session.Descends b) := by
  intro s hs
  unfold ofTallies
  cases action (s.store, s.classification) with
  | ok a tallies => exact ⟨hs.binder_same, hs.programs_sound⟩
  | error fault tallies => exact ⟨hs.binder_same, hs.programs_sound⟩

/-- Binding a reserved name keeps the other bindings. -/
theorem descends_bind {name : String}
    (hname : name ∈ Evaluator.reservedBindings.map Prod.fst) (value : Value) :
    (Action.bind name value).Keeps (Session.Descends b) := by
  intro s hs
  unfold Action.bind Binder.set
  by_cases hbound : s.binder.contains name = true
  · simp only [hbound, if_true]
    refine ⟨?_, hs.programs_sound⟩
    exact (Binder.blank_rebind_of_mem hname value s.binder).trans hs.binder_same
  · simp only [hbound]
    exact hs


end Action

/-- Whether the hooks of an evaluator go by values and the classification only. -/
structure Evaluator.HooksAreLocal (e : Evaluator) : Prop where
  before : e.before.IsLocal
  after : e.after.IsLocal

namespace Evaluator

variable {e : Evaluator} {b : Binder}

/-- A hook that goes by values and the classification keeps the bindings. -/
theorem descends_hook {hook : Hook} (h : hook.IsLocal) (item : Record) (context : List Record) :
    (hook item context).Keeps (Session.Descends b) := by
  obtain ⟨action, haction⟩ := h
  rw [haction]
  exact Action.descends_ofTallies _

/-- What planning keeps, keeps the bindings of before. -/
theorem descends_keptByPlanning : KeptByPlanning (Session.Descends b) where
  values _ _ hs := ⟨hs.binder_same, hs.programs_sound⟩
  bind _ hname value := Action.descends_bind (List.mem_filter.mp hname).1 value

/-- Preparing a script keeps the bindings and right programs. -/
theorem descends_prepare (hengine : e.engine.IsTransparent) (script : Value) :
    (e.prepare script).Keeps (Session.Descends b) := by
  intro s hs
  rw [prepare_eq]
  cases hprepared : e.engine script s.programs s.store with
  | ok prepared σ =>
      exact ⟨hs.binder_same, hengine.sound _ _ _ _ _ hs.programs_sound hprepared⟩
  | error fault σ => exact ⟨hs.binder_same, hs.programs_sound⟩

/-- Noting a step keeps the bindings. -/
theorem descends_note (step : Step) (item : Record) (context : List Record) :
    (note step item context).Keeps (Session.Descends b) :=
  fun _ hs => ⟨hs.binder_same, hs.programs_sound⟩

/-- Handling an item keeps the other bindings. -/
theorem descends_handleItem (hhooks : e.HooksAreLocal) (p : Plan) (records : List Record)
    (item : Record) : (handleItem e p records item).Keeps (Session.Descends b) := by
  refine (Action.descends_ofEval _).bind fun context => ?_
  refine (descends_note _ _ _).bind fun _ => ?_
  refine (descends_hook hhooks.before item context).bind fun _ => ?_
  refine (Action.descends_bind (by decide) _).bind fun _ => ?_
  refine (Action.descends_ofEval _).bind fun list => ?_
  refine (Action.descends_bind (by decide) _).bind fun _ => ?_
  refine (descends_note _ _ _).bind fun _ => ?_
  refine (Action.keeps_get.bind fun _ => Action.descends_ofEval _).bind fun _ => ?_
  refine (descends_note _ _ _).bind fun _ => ?_
  refine ((Action.descends_ofEval _).bind fun result => ?_).bind fun _ => ?_
  · exact fun s hs => ⟨hs.binder_same, hs.programs_sound⟩
  · exact (descends_note _ _ _).bind fun _ => descends_hook hhooks.after item context

/-- Processing an item keeps the other bindings. -/
theorem descends_processItem (hhooks : e.HooksAreLocal) (p : Plan) (records : List Record)
    (item : Record) : (processItem e p records item).Keeps (Session.Descends b) :=
  (Action.descends_ofEval _).bind fun _ =>
    (descends_handleItem hhooks p records item).bind fun _ => Action.descends_ofEval _

/-- Processing one item after the other keeps the other bindings. -/
theorem descends_processFrom (hhooks : e.HooksAreLocal) (p : Plan) (records remaining : List Record) :
    ∀ (seen : SeenKeys) (count : Nat),
      (processFrom e p records seen count remaining).Keeps (Session.Descends b) := by
  induction remaining with
  | nil =>
      intro seen count
      exact Action.keeps_pure count
  | cons record remaining ih =>
      intro seen count
      refine (Action.descends_ofEval _).bind fun found => ?_
      cases found with
      | none => exact ih seen count
      | some seen' => exact (descends_processItem hhooks p records record).bind fun _ => ih _ _

/-- Carrying out a plan keeps the other bindings. -/
theorem descends_carryOut (hhooks : e.HooksAreLocal) (records : List Record) (full : Bool)
    (p : Plan) : (e.carryOut records full p).Keeps (Session.Descends b) := by
  refine (Action.descends_ofEval _).bind fun total => ?_
  refine (descends_processFrom hhooks p records records _ _).bind fun processed => ?_
  refine Action.keeps_get.bind fun _ => ?_
  refine (Action.descends_ofEval _).bind fun report => ?_
  refine Action.Keeps.bind ?_ fun _ => Action.keeps_pure _
  exact fun s hs => ⟨hs.binder_same, hs.programs_sound⟩

/-- A run keeps the other bindings, whether it is completed or fails. -/
theorem Run.descends (hengine : e.engine.IsTransparent) (hhooks : e.HooksAreLocal) (r : Run)
    {s : Session} (hs : s.Descends b) : (r.perform e s).2.Descends b := by
  have hplan : (r.plan e).Keeps (Session.Descends b) :=
    descends_keptByPlanning.plan (descends_prepare hengine) r
  have hsteps := (hplan.bind fun p => descends_carryOut hhooks r.records r.isFull p)
    { s with classification := .empty } ⟨hs.binder_same, hs.programs_sound⟩
  rw [Run.perform_eq, settle]
  split
  · rename_i hrun
    rw [hrun] at hsteps
    exact hsteps
  · rename_i hrun
    rw [hrun] at hsteps
    exact ⟨hsteps.binder_same, hsteps.programs_sound⟩

/-! ## Calls in a row -/

/-- The session after a call. -/
def Call.after (e : Evaluator) (s : Session) : Call → Session
  | .run r => (r.perform e s).2
  | .bindResultKey expression =>
    match e.bindResultKey expression s with
    | .ok _ s' => s'
    | .error _ s' => s'
  | .elsewhere change => { s with store := change s.store }

/-- The session after some calls, made one after the other. -/
def afterCalls (e : Evaluator) (calls : List Call) (s : Session) : Session :=
  calls.foldl (Call.after e) s

/-- A call changes no bindings but those of the reserved names, and keeps no wrong program. -/
theorem Call.descends (hengine : e.engine.IsTransparent) (hhooks : e.HooksAreLocal) (call : Call)
    {s : Session} (hs : s.Descends b) : (call.after e s).Descends b := by
  cases call with
  | run r => exact r.descends hengine hhooks hs
  | bindResultKey expression =>
      have hbound := descends_keptByPlanning.bindResultKey e expression s hs
      simp only [Call.after]
      cases hresult : e.bindResultKey expression s with
      | ok target s' | error fault s' =>
          rw [hresult] at hbound
          exact hbound
  | elsewhere change => exact ⟨hs.binder_same, hs.programs_sound⟩

/-- Calls in a row change no bindings but those of the reserved names, and keep no wrong program. -/
theorem descends_afterCalls (hengine : e.engine.IsTransparent) (hhooks : e.HooksAreLocal)
    (calls : List Call) : ∀ {s : Session}, s.Descends b → (e.afterCalls calls s).Descends b := by
  induction calls with
  | nil => exact fun hs => hs
  | cons call calls ih => exact fun hs => ih (call.descends hengine hhooks hs)

/-! ## Full runs -/

/-- Once both have prepared a full run, two sessions do not differ in what it binds. -/
theorem agree_fullPlan (hengine : e.engine.IsTransparent) {names : List String} {history : Prop}
    (request : Request) :
    Action.Agree ("evalKey" :: "evalKeyDisplayValue" :: "evalBasedKey" :: "evalBasedKeyDisplayValue"
        :: "itemKey" :: "resultKey" :: "$result" :: "$obs" :: "$pkAll" :: "$classes" :: "$subclasses"
        :: names) names history
      (e.fullPlan request) (e.fullPlan request) := by
  refine (e.agree_compiled _ _).bind fun key => ?_
  refine (e.agree_compiled _ _).bind fun result => ?_
  refine (e.agree_compiled _ _).bind fun obs => ?_
  refine (e.agree_bindCompiled "evalKey" _ _).bind fun _ => ?_
  refine (e.agree_bindCompiled "evalKeyDisplayValue" _ _).bind fun _ => ?_
  refine (e.agree_bindCompiled "evalBasedKey" _ _).bind fun _ => ?_
  refine (e.agree_bindCompiled "evalBasedKeyDisplayValue" _ _).bind fun _ => ?_
  refine (Action.agree_bind "itemKey" _).bind fun _ => ?_
  refine (Action.agree_bind "resultKey" _).bind fun _ => ?_
  refine (Action.agree_bind "$result" _).bind fun _ => ?_
  refine (Action.agree_bind "$obs" _).bind fun _ => ?_
  refine (Action.agree_ofEval _).bind fun relation => ?_
  refine (agree_bindShared relation _ _).bind fun _ => ?_
  exact (agree_prepare hengine _).bind fun _ => Action.agree_pure _

/-- Runs of hooks that go by values and the classification look at no bindings. -/
theorem ignores_of_hooksAreLocal (hhooks : e.HooksAreLocal) :
    e.Ignores ["$ctxI", "$ctxC"] [] False where
  names_sub := List.Subset.refl _
  rest_sub := List.nil_subset _
  notes := False.elim
  before item context := by
    obtain ⟨action, haction⟩ := hhooks.before
    rw [haction]
    exact Action.agree_ofTallies _
  after item context := by
    obtain ⟨action, haction⟩ := hhooks.after
    rw [haction]
    exact Action.agree_ofTallies _

/-- What is run for every item sees no difference between binders that do not differ. -/
theorem jobIgnores_nil (job : Environment → Eval Unit) : JobIgnores [] job := by
  intro b b' classes subclasses hb
  rw [hb.eq_of_nil]

/-- The steps of a full run agree in sessions that differ in the reserved names. -/
theorem agree_fullRun (hengine : e.engine.IsTransparent) (hhooks : e.HooksAreLocal)
    (records : List Record) (request : Request) :
    Action.Agree (reservedBindings.map Prod.fst) ["$ctxI", "$ctxC"] False
      (e.fullRun records request) (e.fullRun records request) := by
  have hplan : Action.Agree (reservedBindings.map Prod.fst) ["$ctxI", "$ctxC"] False
      (e.fullPlan request) (e.fullPlan request) :=
    (agree_fullPlan hengine request).mono (by decide) (List.Subset.refl _)
  rw [fullRun_eq]
  exact hplan.bind fun p =>
    agree_carryOut (ignores_of_hooksAreLocal hhooks) (jobIgnores_nil p.job) records true

/-- A full run that is completed leaves its report as the description. -/
theorem description_of_fullRun {records : List Record} {request : Request} {s s' : Session}
    {report : String} {n : Nat} (h : e.fullRun records request s = .ok (report, n) s') :
    s'.description = report := by
  rw [fullRun_eq] at h
  obtain ⟨p, t, -, hcarry⟩ := bind_ok.mp h
  obtain ⟨_, _, _, _, _, -, -, -, -, rfl⟩ := carryOut_ok hcarry
  rfl

/-- A full run in two sessions that differ in the reserved names, the journal and the description at
most has the same outcome in both, and leaves the same buckets, description and contents of values. -/
theorem run_sameBut (hengine : e.engine.IsTransparent) (hhooks : e.HooksAreLocal) {s s' : Session}
    (hs : s.SameBut (reservedBindings.map Prod.fst) False s') (records : List Record)
    (request : Request) :
    (e.run records request s).1 = (e.run records request s').1 ∧
      (e.run records request s).2.classification = (e.run records request s').2.classification ∧
      (e.run records request s).2.description = (e.run records request s').2.description ∧
      (e.run records request s).2.store = (e.run records request s').2.store := by
  have hagree := agree_fullRun hengine hhooks records request
    { s with classification := .empty } { s' with classification := .empty }
    { hs with classification_eq := rfl }
  simp only [run, settle]
  cases hfirst : e.fullRun records request { s with classification := .empty } with
  | ok answer t =>
      cases hsecond : e.fullRun records request { s' with classification := .empty } with
      | ok answer' t' =>
          simp only [hfirst, hsecond] at hagree
          obtain ⟨rfl, ht⟩ := hagree
          refine ⟨rfl, ht.classification_eq, ?_, ht.store_eq⟩
          rw [description_of_fullRun hfirst, description_of_fullRun hsecond]
      | error fault' t' => simp [hfirst, hsecond] at hagree
  | error fault t =>
      cases hsecond : e.fullRun records request { s' with classification := .empty } with
      | ok answer' t' => simp [hfirst, hsecond] at hagree
      | error fault' t' =>
          simp only [hfirst, hsecond] at hagree
          obtain ⟨rfl, _, ht⟩ := hagree
          exact ⟨rfl, rfl, rfl, ht.store_eq⟩

/-- The session of an evaluator has the bindings that it was made with, the reserved names aside. -/
theorem descends_of_start (hengine : e.engine.IsTransparent) (hhooks : e.HooksAreLocal) {σ : Store}
    {new : Session} (hnew : e.start σ = .ok new) (calls : List Call) :
    ∃ b, e.initialBinder = .ok b ∧ (e.afterCalls calls new).Descends b := by
  unfold start at hnew
  cases hbinder : e.initialBinder with
  | error fault => simp [hbinder, Except.map] at hnew
  | ok b =>
      simp only [hbinder, Except.map, Except.ok.injEq] at hnew
      refine ⟨b, rfl, descends_afterCalls hengine hhooks calls ?_⟩
      rw [← hnew]
      exact ⟨Binder.SameBut.refl _ b, cacheIsSound_nil⟩

/-- An evaluator of scripts for records with a key and a grade, which notes for every item that it
is done. -/
def grader : Evaluator where
  resolver := ⟨⟨"dict", [⟨"k", []⟩, ⟨"grade", []⟩]⟩, [("k", ["k"]), ("grade", ["grade"])]⟩
  engine := scriptEngine
  before := fun _ _ => Action.ofEval (return ())
  after := fun item _ => Action.ofEval (item.value.writePath ["done"] (.bool true))

/-- Two records of different keys. -/
def gradedStore : Store :=
  ⟨#[[(.str "k", .int 1), (.str "grade", .null)], [(.str "k", .int 2), (.str "grade", .int 5)]], #[], 0, ⟨0, none, 0⟩⟩

/-- A full run over these records. -/
def gradeRequest (script : String) : Request where
  itemDisplay := .str "k"
  itemKey := .str "k"
  relation := .null
  evalKey := .str "grade"
  evalBasedKey := .str "grade"
  evalBasedDisplay := .str "grade"
  resultKey := .str "grade"
  obsKey := .str "grade"
  script := .str script
  classes := .null
  subclasses := .null

/-- The hooks of that evaluator write values only. -/
theorem hooksAreLocal_grader : grader.HooksAreLocal where
  before := Hook.isLocal_ofEval fun _ _ => return ()
  after := Hook.isLocal_ofEval fun item _ => item.value.writePath ["done"] (.bool true)

/-- Its records have a key. -/
theorem compile_grader_key (σ : Store) :
    grader.resolver.compile σ (.str "k") = .ok (.path "k" ["k"]) := by
  rw [Resolver.compile]
  rfl

/-- Its records have a grade. -/
theorem compile_grader_grade (σ : Store) :
    grader.resolver.compile σ (.str "grade") = .ok (.path "grade" ["grade"]) := by
  rw [Resolver.compile]
  rfl

/-- That evaluator can be made. -/
theorem start_grader (σ : Store) : ∃ new, grader.start σ = .ok new := by
  have hfields : bindFields grader.resolver .empty grader.fields
      = .ok ⟨[⟨"k", .selector (.path "k" ["k"]), .selector⟩,
        ⟨"grade", .selector (.path "grade" ["grade"]), .selector⟩]⟩ := by
    show bindFields grader.resolver .empty ["k", "grade"] = _
    rw [bindFields, compile_grader_key]
    show bindFields grader.resolver ⟨[⟨"k", .selector (.path "k" ["k"]), .selector⟩]⟩ ["grade"] = _
    rw [bindFields, compile_grader_grade]
    rfl
  rw [start, initialBinder, hfields]
  exact ⟨_, rfl⟩

end Evaluator

end Rubric
