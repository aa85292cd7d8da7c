import Rubric.Proofs.Evaluator.Items

/-!
# Runs

A run prepares a plan, and carries it out: it counts the items, processes them and reports.  What a
run leaves behind follows from what its own plan leaves behind, whatever was run before.

* `Run.completed` : what a successful run leaves in the session;
* `Run.failed` : what a run that fails leaves.
-/

namespace Rubric

open Rubric.Script

namespace Evaluator

/-! ## Plans -/

/-- What a full run prepares before it counts the items. -/
def fullPlan (e : Evaluator) (request : Request) : Action Plan := do
  let key ← e.compiled Resolver.compileKey request.itemKey
  let result ← e.compiled Resolver.compileTarget request.resultKey
  let obs ← e.compiled Resolver.compileTarget request.obsKey
  e.bindCompiled "evalKey" Resolver.compile request.evalKey
  e.bindCompiled "evalKeyDisplayValue" Resolver.compileDisplay request.itemDisplay
  e.bindCompiled "evalBasedKey" Resolver.compile request.evalBasedKey
  e.bindCompiled "evalBasedKeyDisplayValue" Resolver.compileDisplay request.evalBasedDisplay
  Action.bind "itemKey" (.selector key)
  Action.bind "resultKey" result.toValue
  Action.bind "$result" result.toValue
  Action.bind "$obs" obs.toValue
  let relation ← Action.ofEval (relationOr key request.relation)
  bindShared relation request.classes request.subclasses
  let job ← e.prepare request.script
  return ⟨key, relation, result, job, request.classes, request.subclasses⟩

/-- What a simplified run prepares before it counts the items. -/
def simplePlan (e : Evaluator) (request : SimpleRequest) : Action Plan := do
  let key ← e.compiled Resolver.compileKey request.itemKey
  let result ← e.resultTarget request.resultKey
  Action.bind "itemKey" (.selector key)
  Action.bind "$result" result.toValue
  let relation ← Action.ofEval (relationOr key request.relation)
  bindShared relation request.classes request.subclasses
  let job ← e.prepare request.script
  return ⟨key, relation, result, job, request.classes, request.subclasses⟩

/-- What a run does with its plan. -/
def carryOut (e : Evaluator) (records : List Record) (full : Bool) (p : Plan) :
    Action (String × Nat) := do
  let total ← Action.ofEval (countDistinct p.keyOf records)
  let processed ← processFrom e p records .empty 0 records
  let classification := (← get).classification
  let report ← Action.ofEval (classification.report (.int total) (reportPlaces full))
  modify fun s => { s with description := report }
  return (report, processed)

/-- A full run prepares its plan and carries it out. -/
theorem fullRun_eq (e : Evaluator) (records : List Record) (request : Request) :
    e.fullRun records request = e.fullPlan request >>= e.carryOut records true := by
  simp only [fullRun, fullPlan, finish, carryOut, bind_assoc, pure_bind]

/-- A simplified run prepares its plan and carries it out. -/
theorem simpleRun_eq (e : Evaluator) (records : List Record) (request : SimpleRequest) :
    e.simpleRun records request = e.simplePlan request >>= e.carryOut records false := by
  simp only [simpleRun, simplePlan, finish, carryOut, bind_assoc, pure_bind]

/-! ## Preparing leaves the classification alone -/

/-- Compiling an expression keeps the classification and the journal. -/
theorem keepsTallies_compiled {α : Type} (e : Evaluator)
    (compile : Resolver → Store → Value → Except Fault α) (expression : Value) :
    (e.compiled compile expression).KeepsTallies :=
  Action.keepsTallies_get.bind fun _ => Action.keepsTallies_ofEval _

/-- Binding a compiled expression keeps both. -/
theorem keepsTallies_bindCompiled (e : Evaluator) (name : String)
    (compile : Resolver → Store → Value → Except Fault Selector) (expression : Value) :
    (e.bindCompiled name compile expression).KeepsTallies :=
  (e.keepsTallies_compiled compile expression).bind fun _ => Action.keepsTallies_bind _ _

/-- Binding the relation and the descriptions of labels keeps both. -/
theorem keepsTallies_bindShared (relation classes subclasses : Value) :
    (bindShared relation classes subclasses).KeepsTallies :=
  (Action.keepsTallies_bind _ _).bind fun _ =>
    (Action.keepsTallies_ofEval _).bind fun _ =>
      (Action.keepsTallies_bind _ _).bind fun _ =>
        (Action.keepsTallies_ofEval _).bind fun _ => Action.keepsTallies_bind _ _

/-- Binding the result field keeps both. -/
theorem keepsTallies_bindResultKey (e : Evaluator) (expression : Value) :
    (e.bindResultKey expression).KeepsTallies :=
  (e.keepsTallies_compiled _ expression).bind fun target =>
    (Action.keepsTallies_bind _ _).bind fun _ => Action.keepsTallies_pure target

/-- Finding the result field keeps both. -/
theorem keepsTallies_resultTarget (e : Evaluator) (expression : Value) :
    (e.resultTarget expression).KeepsTallies := by
  unfold resultTarget
  split
  · exact e.keepsTallies_bindResultKey expression
  · refine (Action.keepsTallies_bound _).bind fun v => ?_
    split
    · exact Action.keepsTallies_throw _
    · split
      · exact Action.keepsTallies_pure _
      · exact e.keepsTallies_bindResultKey v

/-- Preparing a script keeps both. -/
theorem keepsTallies_prepare (e : Evaluator) (script : Value) : (e.prepare script).KeepsTallies := by
  refine Action.keepsTallies_get.bind fun s => ?_
  refine (Action.keepsTallies_ofEval _).bind fun prepared => ?_
  refine Action.KeepsTallies.bind (fun s a s' h => ?_) fun _ => Action.keepsTallies_pure _
  cases h
  exact ⟨rfl, rfl⟩

/-- Preparing a full run keeps both. -/
theorem keepsTallies_fullPlan (e : Evaluator) (request : Request) :
    (e.fullPlan request).KeepsTallies := by
  refine (e.keepsTallies_compiled _ _).bind fun key => ?_
  refine (e.keepsTallies_compiled _ _).bind fun result => ?_
  refine (e.keepsTallies_compiled _ _).bind fun obs => ?_
  refine (e.keepsTallies_bindCompiled "evalKey" _ _).bind fun _ => ?_
  refine (e.keepsTallies_bindCompiled "evalKeyDisplayValue" _ _).bind fun _ => ?_
  refine (e.keepsTallies_bindCompiled "evalBasedKey" _ _).bind fun _ => ?_
  refine (e.keepsTallies_bindCompiled "evalBasedKeyDisplayValue" _ _).bind fun _ => ?_
  refine (Action.keepsTallies_bind "itemKey" (.selector key)).bind fun _ => ?_
  refine (Action.keepsTallies_bind "resultKey" result.toValue).bind fun _ => ?_
  refine (Action.keepsTallies_bind "$result" result.toValue).bind fun _ => ?_
  refine (Action.keepsTallies_bind "$obs" obs.toValue).bind fun _ => ?_
  refine (Action.keepsTallies_ofEval _).bind fun relation => ?_
  refine (keepsTallies_bindShared relation _ _).bind fun _ => ?_
  exact (e.keepsTallies_prepare _).bind fun _ => Action.keepsTallies_pure _

/-- Preparing a simplified run keeps both. -/
theorem keepsTallies_simplePlan (e : Evaluator) (request : SimpleRequest) :
    (e.simplePlan request).KeepsTallies := by
  refine (e.keepsTallies_compiled _ _).bind fun key => ?_
  refine (e.keepsTallies_resultTarget _).bind fun result => ?_
  refine (Action.keepsTallies_bind "itemKey" (.selector key)).bind fun _ => ?_
  refine (Action.keepsTallies_bind "$result" result.toValue).bind fun _ => ?_
  refine (Action.keepsTallies_ofEval _).bind fun relation => ?_
  refine (keepsTallies_bindShared relation _ _).bind fun _ => ?_
  exact (e.keepsTallies_prepare _).bind fun _ => Action.keepsTallies_pure _

/-! ## Runs of both kinds -/

/-- A run that is asked for, over a dataset. -/
inductive Run where
  | full (values : List Value) (request : Request)
  | simple (values : List Value) (request : SimpleRequest)

namespace Run

/-- The records of the dataset. -/
def records : Run → List Record
  | full values _ => Record.numbered values
  | simple values _ => Record.numbered values

/-- Whether everything is bound that a script can ask for. -/
def isFull : Run → Bool
  | full _ _ => true
  | simple _ _ => false

/-- What the run prepares before it counts the items. -/
def plan (e : Evaluator) : Run → Action Plan
  | full _ request => e.fullPlan request
  | simple _ request => e.simplePlan request

/-- The outcome of the run, and the session after it. -/
def perform (e : Evaluator) : Run → Session → Outcome × Session
  | full values request => e.run (Record.numbered values) request
  | simple values request => e.runSimple (Record.numbered values) request

/-- A run prepares its plan and carries it out. -/
theorem perform_eq (e : Evaluator) (r : Run) (s : Session) :
    r.perform e s = settle (r.plan e >>= e.carryOut r.records r.isFull) s := by
  cases r with
  | full values request => rw [perform, run, fullRun_eq]; rfl
  | simple values request => rw [perform, runSimple, simpleRun_eq]; rfl

/-- Preparing a run keeps the classification and the journal. -/
theorem keepsTallies_plan (e : Evaluator) (r : Run) : (r.plan e).KeepsTallies := by
  cases r with
  | full values request => exact e.keepsTallies_fullPlan request
  | simple values request => exact e.keepsTallies_simplePlan request

end Run

/-- A plan that is carried out: how many items are counted, which are processed, and the report. -/
theorem carryOut_ok {e : Evaluator} {records : List Record} {full : Bool} {p : Plan}
    {s s' : Session} {report : String} {n : Nat}
    (h : e.carryOut records full p s = .ok (report, n) s') :
    ∃ counted σ items t σ',
      distinctItems p.keyOf records s.store = .ok counted σ ∧
      Turns e p records .empty { s with store := σ } records items t ∧ n = items.length ∧
      t.classification.report (.int counted.length) (reportPlaces full) t.store = .ok report σ' ∧
      s' = { t with store := σ', description := report } := by
  obtain ⟨total, s₁, htotal, h⟩ := bind_ok.mp h
  obtain ⟨processed, t, hprocessed, h⟩ := bind_ok.mp h
  obtain ⟨_, t₁, hget, h⟩ := bind_ok.mp h
  obtain ⟨report', t₂, hreport, h⟩ := bind_ok.mp h
  obtain ⟨_, t₃, hmodify, h⟩ := bind_ok.mp h
  obtain ⟨σ, hcount, rfl⟩ := Action.ofEval_ok htotal
  cases hget
  obtain ⟨σ', hreport', rfl⟩ := Action.ofEval_ok hreport
  cases hmodify
  cases h
  obtain ⟨items, hturns, hn⟩ := turns_of_processFrom hprocessed
  rw [Nat.zero_add] at hn
  obtain ⟨counted, σ', hcounted, hlength⟩ := bind_ok.mp hcount
  cases hlength
  exact ⟨counted, _, items, _, _, hcounted, hturns, hn, hreport', rfl⟩

/-! ## What runs leave behind -/

/-- A run that was completed, step by step: it prepares its plan, counts some records as items, and
processes some as items, each put under the label that it has when it is classified. -/
structure Run.Completes (r : Run) (e : Evaluator) (s : Session) (report : String) (n : Nat)
    (s' : Session) (p : Plan) (t : Session) (counted items : List Record) (events : List Event)
    (tallies : List (String × Record)) : Prop where
  planned : r.plan e { s with classification := .empty } = .ok p t
  turns : ∃ σ, distinctItems p.keyOf r.records t.store = .ok counted σ ∧
    ∃ u, Turns e p r.records .empty { t with store := σ } r.records items u
  number_eq : n = items.length
  items_eq : tallies.map Prod.snd = items
  journal_eq : s'.journal = s.journal ++ events
  executed_eq : executed events = items
  classified_eq : classified p.result events = tallies.map some
  classification_eq : s'.classification = .collect tallies
  report_eq : ∃ σ σ', (Classification.collect tallies).report (.int counted.length)
    (reportPlaces r.isFull) σ = .ok report σ'
  description_eq : s'.description = report

/-- The steps of a run that was completed. -/
theorem Run.completes {r : Run} {e : Evaluator} (he : e.HooksKeepTallies) {s s' : Session}
    {report : String} {n : Nat} (h : r.perform e s = (.completed report n, s')) :
    ∃ p t counted items events tallies,
      r.Completes e s report n s' p t counted items events tallies := by
  rw [Run.perform_eq, settle] at h
  split at h
  · rename_i hsteps
    simp only [Prod.mk.injEq, Outcome.completed.injEq] at h
    obtain ⟨⟨rfl, rfl⟩, rfl⟩ := h
    obtain ⟨p, t, hplan, hcarry⟩ := bind_ok.mp hsteps
    -- the run starts with an empty classification, and preparing adds nothing to it
    obtain ⟨hempty, hjournal⟩ := r.keepsTallies_plan e _ _ _ hplan
    obtain ⟨counted, σ, items, u, σ', hcounted, hturns, hn, hreport, rfl⟩ := carryOut_ok hcarry
    obtain ⟨tallies, hitems, events, hevents, hexecuted, hclassified, hadded⟩ := hturns.advances he
    have hcollect : u.classification = Classification.collect tallies := by
      rw [hadded]
      show tallies.foldl _ t.classification = _
      rw [hempty]
      rfl
    have hsofar : u.journal = s.journal ++ events := by
      rw [hevents]
      show t.journal ++ events = _
      rw [hjournal]
    rw [hcollect] at hreport
    exact ⟨p, t, counted, items, events, tallies, hplan, ⟨σ, hcounted, u, hturns⟩, hn, hitems, hsofar,
      hexecuted, hclassified, hcollect, ⟨u.store, σ', hreport⟩, rfl⟩
  · simp at h

/-- Numbered records stand at different positions. -/
theorem nodup_positions (values : List Value) :
    ((Record.numbered values).map Record.position).Nodup := by
  have hpositions : (Record.numbered values).map Record.position = List.range values.length := by
    rw [Record.numbered, List.map_map, List.range_eq_range']
    exact List.zipIdx_map_snd 0 values
  rw [hpositions]
  exact List.nodup_range

/-- The records of a run stand at different positions. -/
theorem Run.nodup_positions (r : Run) : (r.records.map Record.position).Nodup := by
  cases r <;> exact Evaluator.nodup_positions _

/-- Whether a run that was completed put exactly the records it was run for into the buckets: each
under the label that its result field had when it was classified, the labels in order of first use,
the records of each in the order in which they were processed, and no position twice. -/
def Run.FillsBuckets (r : Run) (e : Evaluator) (s s' : Session) : Prop :=
  ∃ p t events tallies,
    r.plan e { s with classification := .empty } = .ok p t ∧
    s'.journal = s.journal ++ events ∧
    executed events = tallies.map Prod.snd ∧
    classified p.result events = tallies.map some ∧
    s'.classification.buckets = Classification.grouped tallies ∧
    s'.classification.members.Perm (executed events) ∧
    (s'.classification.members.map Record.position).Nodup

/-- A run that is completed fills the buckets, counts their records and keeps its report. -/
theorem Run.completed {r : Run} {e : Evaluator} (he : e.HooksKeepTallies) {s s' : Session}
    {report : String} {n : Nat} (h : r.perform e s = (.completed report n, s')) :
    r.FillsBuckets e s s' ∧ n = s'.classification.total ∧ s'.description = report := by
  obtain ⟨p, t, counted, items, events, tallies, hrun⟩ := Run.completes he h
  obtain ⟨_, -, _, hturns⟩ := hrun.turns
  have hmembers : s'.classification.members.Perm (executed events) := by
    rw [hrun.classification_eq, hrun.executed_eq, ← hrun.items_eq]
    exact Classification.members_collect tallies
  refine ⟨⟨p, t, events, tallies, hrun.planned, hrun.journal_eq, ?_, hrun.classified_eq, ?_, hmembers, ?_⟩,
    ?_, hrun.description_eq⟩
  · rw [hrun.executed_eq, hrun.items_eq]
  · rw [hrun.classification_eq, Classification.buckets_collect]
  · refine ((hmembers.map Record.position).nodup_iff).mpr ?_
    rw [hrun.executed_eq]
    exact (hturns.sublist.map Record.position).nodup r.nodup_positions
  · rw [hrun.number_eq, hrun.classification_eq, Classification.total_collect, ← hrun.items_eq,
      List.length_map]

/-- A run that fails leaves no buckets and no description. -/
theorem Run.failed {r : Run} {e : Evaluator} {s s' : Session} {fault : Fault}
    (h : r.perform e s = (.failed fault, s')) :
    s'.classification.buckets = [] ∧ s'.description = "" := by
  rw [Run.perform_eq, settle] at h
  split at h
  · simp at h
  · simp only [Prod.mk.injEq] at h
    rw [← h.2]
    exact ⟨rfl, rfl⟩

/-! ## Runs in a row -/

/-- A call on an evaluator, or a change of the store elsewhere. -/
inductive Call where
  | run (r : Run)
  | bindResultKey (expression : Value)
  | elsewhere (change : Store → Store)

/-- A run that was made, with the session before it, its outcome and the session after it. -/
structure RunEntry where
  run : Run
  before : Session
  outcome : Outcome
  after : Session

/-- The runs among some calls, made one after the other. -/
def runLog (e : Evaluator) : List Call → Session → List RunEntry
  | [], _ => []
  | .run r :: calls, s =>
    let (outcome, s') := r.perform e s
    ⟨r, s, outcome, s'⟩ :: runLog e calls s'
  | .bindResultKey expression :: calls, s =>
    match e.bindResultKey expression s with
    | .ok _ s' => runLog e calls s'
    | .error _ s' => runLog e calls s'
  | .elsewhere change :: calls, s => runLog e calls { s with store := change s.store }

/-- Whether a run left behind what it should: filled buckets with their number and their report where
it was completed, and nothing where it failed. -/
def RunEntry.IsFaithful (e : Evaluator) (entry : RunEntry) : Prop :=
  match entry.outcome with
  | .completed report n =>
    entry.run.FillsBuckets e entry.before entry.after ∧
      n = entry.after.classification.total ∧ entry.after.description = report
  | .failed _ =>
    entry.after.classification.buckets = [] ∧ entry.after.description = "" ∧
      entry.outcome.report = ""

/-- A run leaves behind what it should, whatever session it was made in. -/
theorem Run.isFaithful {e : Evaluator} (he : e.HooksKeepTallies) (r : Run) (s : Session) :
    RunEntry.IsFaithful e ⟨r, s, (r.perform e s).1, (r.perform e s).2⟩ := by
  unfold RunEntry.IsFaithful
  cases houtcome : (r.perform e s).1 with
  | completed report n => exact Run.completed he (Prod.ext houtcome rfl)
  | failed fault =>
      have hrun : r.perform e s = (.failed fault, (r.perform e s).2) := Prod.ext houtcome rfl
      obtain ⟨hbuckets, hdescription⟩ := Run.failed hrun
      exact ⟨hbuckets, hdescription, rfl⟩

/-- An evaluator with an idle engine, whose hook after an item gives all records of the context the
same key. -/
def keyWriter : Evaluator where
  resolver := ⟨⟨"dict", []⟩, []⟩
  engine := fun _ => return fun _ => return ()
  before := Hook.none
  after := fun _ context => context.forM fun record =>
    Action.ofEval (record.value.writePath ["k"] (.int 1))

/-- A session of that evaluator with two records, of different keys. -/
def keySession : Session :=
  let store : Store :=
    ⟨#[[(.str "k", .int 1), (.str "v", .str "a")], [(.str "k", .int 2), (.str "v", .str "b")]],
      #[], 0, ⟨0, none, 0⟩⟩
  match keyWriter.start store with
  | .ok s => s
  | .error _ => ⟨store, .empty, .empty, "", [], []⟩

/-- A run over these records, each in the context of the other. -/
def keyRun : Run :=
  .simple [.mapping 0, .mapping 1]
    ⟨.selector (.path "k" ["k"]), .function default .always, .null, .null, .null,
      .selector (.path "v" ["v"])⟩

/-- The hooks of that evaluator write records only. -/
theorem hooksKeepTallies_keyWriter : keyWriter.HooksKeepTallies where
  before _ _ := Action.keepsTallies_pure ()
  after _ context := Action.keepsTallies_forM (fun _ => Action.keepsTallies_ofEval _) context

end Evaluator

end Rubric
