import Rubric.Proofs.Evaluator.Past
import Rubric.Proofs.Script.Mentions

/-!
# Full and simplified runs

A full run binds five names more than a simplified run and prints its report with more places.  A
script that mentions none of the five does the same in both, and both fail at the same place with the
same fault.

* `run_runSimple` : a full and a simplified run of the same request end alike.
-/

namespace Rubric

open Rubric.Script

/-! ## The names of full runs -/

/-- The names that only a full run binds. -/
def Evaluator.fullNames : List String :=
  ["$obs", "evalKey", "evalKeyDisplayValue", "evalBasedKey", "evalBasedKeyDisplayValue"]

/-- Whether a script, if it can be compiled, mentions none of some names. -/
def Value.ScriptAvoids (script : Value) (names : List String) : Prop :=
  ∀ text program, script = .str text → compileText true text = .ok program →
    ∀ name ∈ program.mentions, name ∉ names

/-- Whether a session has all reserved names bound and keeps right programs only, as that of an
evaluator has at all times. -/
structure Session.Fits (s : Session) : Prop where
  reserved : ∀ name ∈ Evaluator.reservedBindings.map Prod.fst, s.binder.contains name
  programs_sound : CacheIsSound s.programs

namespace Evaluator

variable {e : Evaluator}

/-! ## Sessions of evaluators -/

/-- A name that is added is bound from then on, and so are those that were. -/
theorem contains_of_add {b b' : Binder} {name other : String} {value : Value}
    {kind : Option BindingKind} (h : b.add name value kind = .ok b')
    (hother : other = name ∨ b.contains other) : b'.contains other := by
  unfold Binder.add at h
  split at h
  · simp at h
  · simp only [Except.ok.injEq] at h
    rw [← h]
    simp only [Binder.contains, Binder.get?, List.find?_append, Option.isSome_or, Bool.or_eq_true]
    rcases hother with rfl | hother
    · right
      simp
    · exact .inl hother

/-- The reserved names are bound once they are added. -/
theorem contains_of_bindReserved (entries : List (String × BindingKind)) :
    ∀ {b b' : Binder}, bindReserved b entries = .ok b' →
      ∀ name, name ∈ entries.map Prod.fst ∨ b.contains name → b'.contains name := by
  induction entries with
  | nil =>
      intro b b' h name hname
      simp only [bindReserved, Except.ok.injEq] at h
      rw [← h]
      simpa using hname
  | cons entry entries ih =>
      obtain ⟨first, kind⟩ := entry
      intro b b' h name hname
      simp only [bindReserved, bind, Except.bind] at h
      split at h
      · simp at h
      · rename_i added hadded
        apply ih h name
        rw [List.map_cons, List.mem_cons] at hname
        rcases hname with (hfirst | hrest) | hbound
        · exact .inr (contains_of_add hadded (.inl hfirst))
        · exact .inl hrest
        · exact .inr (contains_of_add hadded (.inr hbound))

/-- The session of an evaluator fits at all times. -/
theorem fits_afterCalls (hengine : e.engine.IsTransparent) (hhooks : e.HooksAreLocal) {σ : Store}
    {new : Session} (hnew : e.start σ = .ok new) (calls : List Call) :
    (e.afterCalls calls new).Fits := by
  obtain ⟨b, hbinder, hdescends⟩ := descends_of_start hengine hhooks hnew calls
  refine ⟨fun name hname => ?_, hdescends.programs_sound⟩
  rw [hdescends.binder_same.contains_eq name]
  simp only [initialBinder, bind, Except.bind] at hbinder
  split at hbinder
  · simp at hbinder
  · exact contains_of_bindReserved _ hbinder name (.inl hname)

/-! ## Plans -/

/-- An expression that compiles. -/
theorem compiled_of_ok {α : Type} {compile : Resolver → Store → Value → Except Fault α}
    {expression : Value} {s : Session} {a : α} (h : compile e.resolver s.store expression = .ok a) :
    e.compiled compile expression s = .ok a s := by
  show Action.ofEval _ s = _
  rw [Action.ofEval, h]
  rfl

/-- An expression that does not compile. -/
theorem compiled_of_error {α : Type} {compile : Resolver → Store → Value → Except Fault α}
    {expression : Value} {s : Session} {fault : Fault}
    (h : compile e.resolver s.store expression = .error fault) :
    e.compiled compile expression s = .error fault s := by
  show Action.ofEval _ s = _
  rw [Action.ofEval, h]
  rfl

/-- Changing the value of a name that is bound. -/
theorem bind_of_contains {name : String} {s : Session} {b : Binder} (h : b.contains name)
    (value : Value) :
    Action.bind name value { s with binder := b }
      = .ok () { s with binder := b.rebind name value none } := by
  unfold Action.bind Binder.set
  simp only [h, if_true]

/-- Binding a compiled expression. -/
theorem bindCompiled_of_ok {name : String}
    {compile : Resolver → Store → Value → Except Fault Selector} {expression : Value} {s : Session}
    {b : Binder} {selector : Selector} (h : compile e.resolver s.store expression = .ok selector)
    (hname : b.contains name) :
    e.bindCompiled name compile expression { s with binder := b }
      = .ok () { s with binder := b.rebind name (.selector selector) none } := by
  have hcompiled : e.compiled compile expression { s with binder := b }
      = .ok selector { s with binder := b } := compiled_of_ok h
  rw [bindCompiled, bind_of_ok hcompiled, bind_of_contains hname]

/-- What runs of both kinds prepare once the item key and the result field are bound. -/
def sharedPlan (e : Evaluator) (key : Selector) (result : Target)
    (relation script classes subclasses : Value) : Action Plan := do
  let relation ← Action.ofEval (relationOr key relation)
  bindShared relation classes subclasses
  let job ← e.prepare script
  return ⟨key, relation, result, job, classes, subclasses⟩

/-- The simplified form of a request. -/
def Request.simplified (request : Request) : SimpleRequest where
  itemKey := request.itemKey
  relation := request.relation
  script := request.script
  classes := request.classes
  subclasses := request.subclasses
  resultKey := request.resultKey

/-- Whether what only a full run is asked for compiles. -/
structure Request.Compiles (e : Evaluator) (σ : Store) (request : Request) : Prop where
  obs : ∃ target, e.resolver.compileTarget σ request.obsKey = .ok target
  evalKey : ∃ selector, e.resolver.compile σ request.evalKey = .ok selector
  itemDisplay : ∃ selector, e.resolver.compileDisplay σ request.itemDisplay = .ok selector
  evalBasedKey : ∃ selector, e.resolver.compile σ request.evalBasedKey = .ok selector
  evalBasedDisplay : ∃ selector, e.resolver.compileDisplay σ request.evalBasedDisplay = .ok selector

/-- Preparing a full run: it fails where the item key or the result field does not compile, and goes on
with more names bound where both do. -/
theorem fullPlan_eq {s : Session} (hs : s.Fits) {request : Request}
    (hrequest : request.Compiles e s.store) {key : Selector} {result : Target}
    (hkey : e.resolver.compileKey s.store request.itemKey = .ok key)
    (hresult : e.resolver.compileTarget s.store request.resultKey = .ok result) :
    ∃ b, e.fullPlan request s = e.sharedPlan key result request.relation request.script
        request.classes request.subclasses { s with binder := b } ∧
      b.SameBut fullNames (((s.binder.rebind "resultKey" result.toValue none).rebind "itemKey"
        (.selector key) none).rebind "$result" result.toValue none) := by
  obtain ⟨obs, hobs⟩ := hrequest.obs
  obtain ⟨evalKey, hevalKey⟩ := hrequest.evalKey
  obtain ⟨itemDisplay, hitemDisplay⟩ := hrequest.itemDisplay
  obtain ⟨evalBasedKey, hevalBasedKey⟩ := hrequest.evalBasedKey
  obtain ⟨evalBasedDisplay, hevalBasedDisplay⟩ := hrequest.evalBasedDisplay
  have hbound : ∀ name ∈ reservedBindings.map Prod.fst, s.binder.contains name := hs.reserved
  rw [fullPlan, bind_of_ok (compiled_of_ok hkey), bind_of_ok (compiled_of_ok hresult),
    bind_of_ok (compiled_of_ok hobs),
    bind_of_ok (bindCompiled_of_ok hevalKey (hbound _ (by decide))),
    bind_of_ok (bindCompiled_of_ok hitemDisplay (by simpa using hbound _ (by decide))),
    bind_of_ok (bindCompiled_of_ok hevalBasedKey (by simpa using hbound _ (by decide))),
    bind_of_ok (bindCompiled_of_ok hevalBasedDisplay (by simpa using hbound _ (by decide))),
    bind_of_ok (bind_of_contains (by simpa using hbound _ (by decide)) _),
    bind_of_ok (bind_of_contains (by simpa using hbound _ (by decide)) _),
    bind_of_ok (bind_of_contains (by simpa using hbound _ (by decide)) _),
    bind_of_ok (bind_of_contains (by simpa using hbound _ (by decide)) _)]
  refine ⟨_, rfl, ?_⟩
  -- the simplified run binds the result field before the item key
  rw [Binder.rebind_comm (by decide : "resultKey" ≠ "itemKey")]
  refine Binder.SameBut.rebind_left ?_ (by decide) _
  refine Binder.SameBut.rebind_both ?_ _ _
  refine Binder.SameBut.rebind_both ?_ _ _
  refine Binder.SameBut.rebind_both ?_ _ _
  refine Binder.SameBut.rebind_left ?_ (by decide) _
  refine Binder.SameBut.rebind_left ?_ (by decide) _
  refine Binder.SameBut.rebind_left ?_ (by decide) _
  exact Binder.SameBut.rebind_left (Binder.SameBut.refl _ _) (by decide) _

/-- Preparing a simplified run that is given a result field. -/
theorem simplePlan_eq {s : Session} (hs : s.Fits) {request : Request}
    (hnull : request.resultKey.isNull = false) {key : Selector} {result : Target}
    (hkey : e.resolver.compileKey s.store request.itemKey = .ok key)
    (hresult : e.resolver.compileTarget s.store request.resultKey = .ok result) :
    e.simplePlan request.simplified s = e.sharedPlan key result request.relation request.script
        request.classes request.subclasses
        { s with binder := ((s.binder.rebind "resultKey" result.toValue none).rebind "itemKey"
          (.selector key) none).rebind "$result" result.toValue none } := by
  have hbound : ∀ name ∈ reservedBindings.map Prod.fst, s.binder.contains name := hs.reserved
  have htarget : e.resultTarget request.resultKey s
      = .ok result { s with binder := s.binder.rebind "resultKey" result.toValue none } := by
    rw [resultTarget, hnull]
    simp only [Bool.not_false, if_true]
    rw [bindResultKey, bind_of_ok (compiled_of_ok hresult),
      bind_of_ok (bind_of_contains (hbound _ (by decide)) _)]
    rfl
  simp only [simplePlan, Request.simplified]
  rw [bind_of_ok (compiled_of_ok hkey), bind_of_ok htarget,
    bind_of_ok (bind_of_contains (by simpa using hbound _ (by decide)) _),
    bind_of_ok (bind_of_contains (by simpa using hbound _ (by decide)) _)]
  rfl

/-- Preparing a full run fails where the item key does not compile. -/
theorem plans_of_key_error {s : Session} {request : Request} {fault : Fault}
    (hkey : e.resolver.compileKey s.store request.itemKey = .error fault) :
    e.fullPlan request s = .error fault s ∧ e.simplePlan request.simplified s = .error fault s :=
  ⟨bind_of_error (compiled_of_error hkey), bind_of_error (compiled_of_error hkey)⟩

/-- Preparing a run of either kind fails where the result field does not compile. -/
theorem plans_of_result_error {s : Session} {request : Request}
    (hnull : request.resultKey.isNull = false) {key : Selector} {fault : Fault}
    (hkey : e.resolver.compileKey s.store request.itemKey = .ok key)
    (hresult : e.resolver.compileTarget s.store request.resultKey = .error fault) :
    e.fullPlan request s = .error fault s ∧ e.simplePlan request.simplified s = .error fault s := by
  have htarget : e.resultTarget request.resultKey s = .error fault s := by
    rw [resultTarget, hnull]
    simp only [Bool.not_false, if_true]
    exact bind_of_error (compiled_of_error hresult)
  constructor
  · rw [fullPlan, bind_of_ok (compiled_of_ok hkey)]
    exact bind_of_error (compiled_of_error hresult)
  · simp only [simplePlan, Request.simplified]
    rw [bind_of_ok (compiled_of_ok hkey)]
    exact bind_of_error htarget

/-- What both kinds prepare agrees in sessions that differ in the names of full runs. -/
theorem agree_sharedPlan (hengine : e.engine.IsTransparent) (key : Selector) (result : Target)
    (relation script classes subclasses : Value) :
    Action.Agree fullNames fullNames True
      (e.sharedPlan key result relation script classes subclasses)
      (e.sharedPlan key result relation script classes subclasses) := by
  refine (Action.agree_ofEval _).bind fun relation => ?_
  have hshared : Action.Agree fullNames fullNames True (bindShared relation classes subclasses)
      (bindShared relation classes subclasses) := by
    refine (agree_bindShared relation _ _).mono ?_ (List.Subset.refl _)
    intro name hname
    simp [hname]
  exact hshared.bind fun _ => (agree_prepare hengine _).bind fun _ => Action.agree_pure _

/-! ## Scripts that avoid the names of full runs -/

/-- A program that mentions no name of full runs does not look at them. -/
theorem jobIgnores_programJob {program : Program}
    (hnames : ∀ name ∈ program.mentions, name ∉ fullNames) :
    JobIgnores fullNames (programJob program) := by
  intro b b' classes subclasses hb
  have henv : Environment.SameBut fullNames ⟨b, classes, subclasses⟩ ⟨b', classes, subclasses⟩ :=
    ⟨hb, rfl, rfl, by decide, by decide, by decide⟩
  rw [programJob, programJob, Program.run_sameBut henv hnames]

/-- What the engine of the script language prepares for a script that avoids the names of full runs
does not look at them. -/
theorem jobIgnores_of_scriptAvoids {script : Value} (hscript : script.ScriptAvoids fullNames)
    {cache kept : ProgramCache} (hcache : CacheIsSound cache) {σ σ' : Store}
    {job : Environment → Eval Unit} (h : scriptEngine script cache σ = .ok (job, kept) σ') :
    JobIgnores fullNames job := by
  rw [scriptEngine_eq] at h
  cases hcached : compileCached σ true cache script with
  | error fault => simp [hcached] at h
  | ok prepared =>
      simp only [hcached, EStateM.Result.ok.injEq, Prod.mk.injEq] at h
      rw [← h.1.1]
      have hcompile : compile σ true script = .ok prepared.1 := by
        rw [← (compileCached_sound hcache σ script).1, hcached]
        rfl
      obtain ⟨text, htext, hprogram⟩ := compileText_of_compile hcompile
      exact jobIgnores_programJob (hscript text _ htext hprogram)

/-- A plan that both kinds prepare for a script that avoids the names of full runs runs something that
does not look at them. -/
theorem jobIgnores_of_sharedPlan (hengine : e.engine = scriptEngine) {key : Selector}
    {result : Target} {relation script classes subclasses : Value}
    (hscript : script.ScriptAvoids fullNames) {s s' : Session} (hs : CacheIsSound s.programs)
    {p : Plan}
    (h : e.sharedPlan key result relation script classes subclasses s = .ok p s') :
    JobIgnores fullNames p.job := by
  obtain ⟨relation', s₁, hrelation, h⟩ := bind_ok.mp h
  obtain ⟨_, s₂, hshared, h⟩ := bind_ok.mp h
  obtain ⟨job, s₃, hprepare, h⟩ := bind_ok.mp h
  cases h
  obtain ⟨σ, -, rfl⟩ := Action.ofEval_ok hrelation
  have hdescends := descends_keptByPlanning.bindShared relation' classes subclasses _
    (⟨Binder.SameBut.refl _ s.binder, hs⟩ : Session.Descends s.binder { s with store := σ })
  rw [hshared] at hdescends
  rw [prepare_eq, hengine] at hprepare
  cases hprepared : scriptEngine script s₂.programs s₂.store with
  | error fault σ' => simp [hprepared] at hprepare
  | ok prepared σ' =>
      simp only [hprepared, EStateM.Result.ok.injEq] at hprepare
      rw [← hprepare.1]
      exact jobIgnores_of_scriptAvoids hscript hdescends.programs_sound hprepared

/-! ## Reports of both kinds -/

/-- A share can be printed with any number of places that is not negative. -/
theorem line_ok {places : Int} (h : 0 ≤ places) (share : BucketShare) :
    ∃ line, share.line places = .ok line := by
  unfold BucketShare.line fixedText
  split
  · exact ⟨_, rfl⟩
  · simp only [not_lt.mpr h, if_false]
    split <;> exact ⟨_, rfl⟩

/-- Shares can be printed with any number of places that is not negative. -/
theorem reportText_ok {places : Int} (h : 0 ≤ places) (σ : Store) (total : Value)
    (stats : List BucketShare) : ∃ report, reportText σ total places stats = .ok report := by
  have hlines : ∃ lines, stats.mapM (BucketShare.line places) = .ok lines := by
    induction stats with
    | nil => exact ⟨[], rfl⟩
    | cons share stats ih =>
        obtain ⟨line, hline⟩ := line_ok h share
        obtain ⟨lines, hlines⟩ := ih
        exact ⟨line :: lines, by simp [List.mapM_cons, hline, hlines, bind, Except.bind, pure, Except.pure]⟩
  obtain ⟨lines, hlines⟩ := hlines
  unfold reportText
  rw [hlines]
  exact ⟨_, rfl⟩

/-- A report can be made with one number of places where it can with another. -/
theorem report_places {α : Type} {places places' : Int} (h : 0 ≤ places) (h' : 0 ≤ places')
    (c : Classification α) (total : Value) (σ : Store) :
    match c.report total places σ, c.report total places' σ with
    | .ok _ τ, .ok _ τ' => τ = τ'
    | .error fault τ, .error fault' τ' => fault = fault' ∧ τ = τ'
    | _, _ => False := by
  cases hshares : shares total c.counts σ with
  | error fault τ =>
      rw [Classification.report, Classification.report, bind_of_error hshares, bind_of_error hshares]
      exact ⟨rfl, rfl⟩
  | ok stats τ =>
      obtain ⟨report, hreport⟩ := reportText_ok h τ total stats
      obtain ⟨report', hreport'⟩ := reportText_ok h' τ total stats
      have hget : (get : Eval Store) τ = .ok τ τ := rfl
      rw [Classification.report, Classification.report, bind_of_ok hshares, bind_of_ok hshares,
        bind_of_ok hget, bind_of_ok hget, hreport, hreport']
      rfl

/-! ## Runs of both kinds -/

/-- Whether a full and a simplified run ended alike: both succeeded, with as many items, or both failed,
with the same message; and both left the same buckets and contents of values, and made the same
calls of hooks and scripts. -/
structure EndAlike (full simple : Outcome × Session) : Prop where
  success_iff : full.1.isSuccess ↔ simple.1.isSuccess
  status_of_success : simple.1.isSuccess → simple.1.status = "Success"
  message_of_failure : ¬ full.1.isSuccess → ∀ elapsed, simple.1.status = full.1.message elapsed
  items_eq : full.1.items = simple.1.items
  classification_eq : full.2.classification = simple.2.classification
  store_eq : full.2.store = simple.2.store
  journal_eq : full.2.journal = simple.2.journal

/-- Carrying out a plan in both ways does the same in sessions that differ in the names of full runs. -/
theorem carryOut_both {p : Plan} (he : e.Ignores fullNames fullNames True)
    (hjob : JobIgnores fullNames p.job) (records : List Record) {s s' : Session}
    (hs : s.SameBut fullNames True s') :
    match e.carryOut records true p s, e.carryOut records false p s' with
    | .ok (_, n) t, .ok (_, n') t' =>
      n = n' ∧ t.classification = t'.classification ∧ t.store = t'.store ∧ t.journal = t'.journal
    | .error fault t, .error fault' t' =>
      fault = fault' ∧ t.store = t'.store ∧ t.journal = t'.journal
    | _, _ => False := by
  have hagree := agree_tallyItems he hjob records s s' hs
  rw [carryOut_eq, carryOut_eq]
  cases hfirst : e.tallyItems records p s with
  | error fault t =>
      cases hsecond : e.tallyItems records p s' with
      | ok tallied' t' => simp [hfirst, hsecond] at hagree
      | error fault' t' =>
          simp only [hfirst, hsecond] at hagree
          obtain ⟨rfl, _, ht⟩ := hagree
          rw [bind_of_error hfirst, bind_of_error hsecond]
          exact ⟨rfl, ht.store_eq, ht.journal_eq trivial⟩
  | ok tallied t =>
      cases hsecond : e.tallyItems records p s' with
      | error fault' t' => simp [hfirst, hsecond] at hagree
      | ok tallied' t' =>
          simp only [hfirst, hsecond] at hagree
          obtain ⟨rfl, ht⟩ := hagree
          rw [bind_of_ok hfirst, bind_of_ok hsecond]
          -- the two reports differ in their places only, which cannot make one of them fail
          have hreport := report_places (by decide : 0 ≤ reportPlaces true)
            (by decide : 0 ≤ reportPlaces false) t.classification (.int tallied.1) t.store
          simp only [reportItems_eq, ← ht.classification_eq, ← ht.store_eq]
          cases hfull : t.classification.report (.int tallied.1) (reportPlaces true) t.store with
          | ok report σ =>
              cases hsimple : t.classification.report (.int tallied.1) (reportPlaces false) t.store with
              | ok report' σ' =>
                  simp only [hfull, hsimple] at hreport
                  exact ⟨rfl, rfl, hreport, ht.journal_eq trivial⟩
              | error fault' σ' => simp [hfull, hsimple] at hreport
          | error fault σ =>
              cases hsimple : t.classification.report (.int tallied.1) (reportPlaces false) t.store with
              | ok report' σ' => simp [hfull, hsimple] at hreport
              | error fault' σ' =>
                  simp only [hfull, hsimple] at hreport
                  exact ⟨hreport.1, hreport.2, ht.journal_eq trivial⟩

/-- Whether the hooks of an evaluator do not look at some names. -/
structure HooksIgnore (e : Evaluator) (names : List String) : Prop where
  before : ∀ item context, Action.Agree names names True (e.before item context) (e.before item context)
  after : ∀ item context, Action.Agree names names True (e.after item context) (e.after item context)

/-- Runs whose hooks do not look at the names of full runs do not look at them. -/
theorem ignores_of_hooksIgnore (h : e.HooksIgnore fullNames) : e.Ignores fullNames fullNames True where
  names_sub := by decide
  rest_sub := List.Subset.refl _
  notes _ := by decide
  before := h.before
  after := h.after

/-- The steps of a full and a simplified run of the same request: both succeed, with as many items, or
both fail with the same fault. -/
theorem fullRun_simpleRun (hengine : e.engine = scriptEngine) (hhooks : e.HooksIgnore fullNames)
    {s : Session} (hs : s.Fits) {request : Request} (hrequest : request.Compiles e s.store)
    (hscript : request.script.ScriptAvoids fullNames) (hnull : request.resultKey.isNull = false)
    (records : List Record) :
    match e.fullRun records request s, e.simpleRun records request.simplified s with
    | .ok (_, n) t, .ok (_, n') t' =>
      n = n' ∧ t.classification = t'.classification ∧ t.store = t'.store ∧ t.journal = t'.journal
    | .error fault t, .error fault' t' =>
      fault = fault' ∧ t.store = t'.store ∧ t.journal = t'.journal
    | _, _ => False := by
  have htransparent : e.engine.IsTransparent := hengine ▸ scriptEngine_isTransparent
  rw [fullRun_eq, simpleRun_eq]
  -- up to the shared part of the plan the two runs can only fail by the key and the result
  cases hkey : e.resolver.compileKey s.store request.itemKey with
  | error fault =>
      obtain ⟨hfull, hsimple⟩ := plans_of_key_error hkey
      rw [bind_of_error hfull, bind_of_error hsimple]
      exact ⟨rfl, rfl, rfl⟩
  | ok key =>
      cases hresult : e.resolver.compileTarget s.store request.resultKey with
      | error fault =>
          obtain ⟨hfull, hsimple⟩ := plans_of_result_error hnull hkey hresult
          rw [bind_of_error hfull, bind_of_error hsimple]
          exact ⟨rfl, rfl, rfl⟩
      | ok result =>
          obtain ⟨b, hfull, hb⟩ := fullPlan_eq hs hrequest hkey hresult
          have hsimple := simplePlan_eq hs hnull hkey hresult
          -- from here on they differ in the names that only a full run binds, which nothing looks at
          have hsame : ({ s with binder := b } : Session).SameBut fullNames True
              { s with binder := ((s.binder.rebind "resultKey" result.toValue none).rebind "itemKey"
                (.selector key) none).rebind "$result" result.toValue none } :=
            ⟨rfl, rfl, hb, .inl rfl, fun _ => rfl, fun _ => rfl⟩
          have hagree := agree_sharedPlan htransparent key result request.relation request.script
            request.classes request.subclasses _ _ hsame
          rw [← hfull, ← hsimple] at hagree
          cases hfirst : e.fullPlan request s with
          | error fault t =>
              cases hsecond : e.simplePlan request.simplified s with
              | ok p' t' => simp [hfirst, hsecond] at hagree
              | error fault' t' =>
                  simp only [hfirst, hsecond] at hagree
                  obtain ⟨rfl, _, ht⟩ := hagree
                  rw [bind_of_error hfirst, bind_of_error hsecond]
                  exact ⟨rfl, ht.store_eq, ht.journal_eq trivial⟩
          | ok p t =>
              cases hsecond : e.simplePlan request.simplified s with
              | error fault' t' => simp [hfirst, hsecond] at hagree
              | ok p' t' =>
                  simp only [hfirst, hsecond] at hagree
                  obtain ⟨rfl, ht⟩ := hagree
                  have hsound : CacheIsSound ({ s with binder := b } : Session).programs :=
                    hs.programs_sound
                  have hjob : JobIgnores fullNames p.job :=
                    jobIgnores_of_sharedPlan hengine hscript hsound (hfull ▸ hfirst)
                  rw [bind_of_ok hfirst, bind_of_ok hsecond]
                  exact carryOut_both (ignores_of_hooksIgnore hhooks) hjob records ht

end Evaluator

end Rubric
