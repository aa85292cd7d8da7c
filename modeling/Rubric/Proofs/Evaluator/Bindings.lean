import Rubric.Proofs.Binder
import Rubric.Proofs.Evaluator.Runs

/-!
# Runs and the values of bound names

Two sessions that differ in what some names are bound to.  Actions that do not look at these names
do the same in both, and binding such a name makes the sessions agree on it.

* `Session.SameBut` : two sessions differ in the values of some names;
* `Action.Agree` : two actions do the same in sessions that differ in some names only;
* `carryOut_agree` : carrying out a plan does the same in such sessions, provided that the hooks and
  the script do not look at the names.
-/

namespace Rubric

open Rubric.Script

/-! ## Sessions that differ in some names -/

/-- Whether the programs that were kept are those of their texts. -/
def CacheIsSound (cache : ProgramCache) : Prop :=
  ∀ text program, cache.lookup text = some program → compileText true text = .ok program

/-- Whether two sessions differ in the values of some names only, and, unless their history counts,
in the journal and the description.  The programs they keep are equal or at least both right. -/
structure Session.SameBut (names : List String) (history : Prop) (s s' : Session) : Prop where
  store_eq : s.store = s'.store
  classification_eq : s.classification = s'.classification
  binder_same : s.binder.SameBut names s'.binder
  programs_alike : s.programs = s'.programs ∨ CacheIsSound s.programs ∧ CacheIsSound s'.programs
  journal_eq : history → s.journal = s'.journal
  description_eq : history → s.description = s'.description

namespace Session.SameBut

variable {names more : List String} {history : Prop} {s s' : Session}

/-- Differing in fewer names is differing in more. -/
theorem mono (h : s.SameBut names history s') (hsub : names ⊆ more) : s.SameBut more history s' :=
  { h with binder_same := h.binder_same.mono hsub }

/-- The same contents written in both. -/
theorem withStore (h : s.SameBut names history s') (σ : Store) :
    ({ s with store := σ } : Session).SameBut names history { s' with store := σ } :=
  { h with store_eq := rfl }

end Session.SameBut

/-- Whether an engine prepares a script the same whatever programs it has at hand, as long as these
are right, and keeps only right ones. -/
structure Engine.IsTransparent (engine : Engine) : Prop where
  same : ∀ script cache, CacheIsSound cache → (engine script).run' cache = (engine script).run' []
  sound : ∀ script cache σ prepared σ', CacheIsSound cache →
    engine script cache σ = .ok prepared σ' → CacheIsSound prepared.2

/-! ## Actions that do the same -/

namespace Action

variable {α β : Type} {names more rest : List String} {history : Prop}

/-- Whether two actions, in sessions that differ in some names, have the same answer or the same
fault, and leave sessions that differ in the names that are listed second. -/
def Agree (names rest : List String) (history : Prop) (first second : Action α) : Prop :=
  ∀ s s', s.SameBut names history s' →
    match first s, second s' with
    | .ok a t, .ok a' t' => a = a' ∧ t.SameBut rest history t'
    | .error fault t, .error fault' t' => fault = fault' ∧ ∃ all, t.SameBut all history t'
    | _, _ => False

/-- Actions agree in sessions that differ in fewer names, and leave sessions that differ in more. -/
theorem Agree.mono {names' rest' : List String} {first second : Action α}
    (h : Agree names rest history first second) (hsub : names' ⊆ names) (hrest : rest ⊆ rest') :
    Agree names' rest' history first second := by
  intro s s' hs
  have hagree := h s s' (hs.mono hsub)
  cases hfirst : first s with
  | ok a t =>
      cases hsecond : second s' with
      | ok a' t' =>
          simp only [hfirst, hsecond] at hagree
          exact ⟨hagree.1, hagree.2.mono hrest⟩
      | error fault' t' => simp [hfirst, hsecond] at hagree
  | error fault t =>
      cases hsecond : second s' with
      | ok a' t' => simp [hfirst, hsecond] at hagree
      | error fault' t' =>
          simp only [hfirst, hsecond] at hagree
          exact hagree

/-- Answering the same. -/
theorem agree_pure (a : α) : Agree names names history (pure a) (pure a) := by
  intro s s' hs
  exact ⟨rfl, hs⟩

/-- Two actions in a row agree where each does. -/
theorem Agree.bind {first first' : Action α} {second second' : α → Action β}
    (hfirst : Agree names more history first first')
    (hsecond : ∀ a, Agree more rest history (second a) (second' a)) :
    Agree names rest history (first >>= second) (first' >>= second') := by
  intro s s' hs
  have hagree := hfirst s s' hs
  show match EStateM.bind first second s, EStateM.bind first' second' s' with
    | .ok b t, .ok b' t' => _
    | .error fault t, .error fault' t' => _
    | _, _ => _
  unfold EStateM.bind
  cases hone : first s with
  | ok a t =>
      cases hother : first' s' with
      | ok a' t' =>
          simp only [hone, hother] at hagree
          obtain ⟨rfl, ht⟩ := hagree
          exact hsecond a t t' ht
      | error fault' t' => simp [hone, hother] at hagree
  | error fault t =>
      cases hother : first' s' with
      | ok a' t' => simp [hone, hother] at hagree
      | error fault' t' =>
          simp only [hone, hother] at hagree
          exact hagree

/-- Computations on values agree. -/
theorem agree_ofEval (action : Eval α) :
    Agree names names history (ofEval action) (ofEval action) := by
  intro s s' hs
  unfold ofEval
  rw [← hs.store_eq]
  cases action s.store with
  | ok a σ => exact ⟨rfl, hs.withStore σ⟩
  | error fault σ => exact ⟨rfl, names, hs.withStore σ⟩

/-- Once both bind a name to the same value, they do not differ in it. -/
theorem agree_bind (name : String) (value : Value) :
    Agree (name :: names) names history (Action.bind name value) (Action.bind name value) := by
  intro s s' hs
  unfold Action.bind Binder.set
  rw [hs.binder_same.contains_eq name]
  by_cases hname : s'.binder.contains name = true
  · simp only [hname, if_true]
    exact ⟨trivial, { hs with binder_same := hs.binder_same.rebind value }⟩
  · simp only [hname]
    exact ⟨rfl, _, hs⟩

/-- Only the value of a name that is bound can be changed. -/
theorem eq_of_bind {name : String} {value : Value} {s t : Session} {u : Unit}
    (h : Action.bind name value s = .ok u t) :
    s.binder.contains name ∧ t = { s with binder := s.binder.rebind name value none } := by
  unfold Action.bind Binder.set at h
  by_cases hbound : s.binder.contains name = true
  · simp only [hbound, if_true] at h
    cases h
    exact ⟨hbound, rfl⟩
  · simp [hbound] at h

/-- Binding a name that fails changes nothing. -/
theorem eq_of_bind_error {name : String} {value : Value} {s t : Session} {fault : Fault}
    (h : Action.bind name value s = .error fault t) : t = s := by
  unfold Action.bind at h
  split at h
  · cases h
  · cases h
    rfl

/-- Actions that go by the session alike. -/
theorem agree_get_bind {f f' : Session → Action β}
    (h : ∀ s s', s.SameBut names history s' → Agree names rest history (f s) (f' s')) :
    Agree names rest history (get >>= f) (get >>= f') := by
  intro s s' hs
  exact h s s' hs s s' hs

end Action

namespace Evaluator

variable {names rest : List String} {history : Prop}

/-! ## The steps of a run -/

/-- Compiling an expression agrees. -/
theorem agree_compiled {α : Type} (e : Evaluator)
    (compile : Resolver → Store → Value → Except Fault α) (expression : Value) :
    Action.Agree names names history (e.compiled compile expression)
      (e.compiled compile expression) := by
  refine Action.agree_get_bind fun s s' hs => ?_
  rw [hs.store_eq]
  exact Action.agree_ofEval _

/-- Once both bind a name to a compiled expression, they do not differ in it. -/
theorem agree_bindCompiled (e : Evaluator) (name : String)
    (compile : Resolver → Store → Value → Except Fault Selector) (expression : Value) :
    Action.Agree (name :: names) names history (e.bindCompiled name compile expression)
      (e.bindCompiled name compile expression) :=
  (e.agree_compiled compile expression).bind fun _ => Action.agree_bind name _

/-- Once both bind the relation and the descriptions of labels, they do not differ in them. -/
theorem agree_bindShared (relation classes subclasses : Value) :
    Action.Agree ("$pkAll" :: "$classes" :: "$subclasses" :: names) names history
      (bindShared relation classes subclasses) (bindShared relation classes subclasses) :=
  (Action.agree_bind "$pkAll" relation).bind fun _ =>
    (Action.agree_ofEval _).bind fun _ =>
      (Action.agree_bind "$classes" _).bind fun _ =>
        (Action.agree_ofEval _).bind fun _ => Action.agree_bind "$subclasses" _

/-- Preparing a script, step by step. -/
theorem prepare_eq (e : Evaluator) (script : Value) (s : Session) :
    e.prepare script s = match e.engine script s.programs s.store with
      | .ok (job, programs) σ => .ok job { s with store := σ, programs := programs }
      | .error fault σ => .error fault { s with store := σ } := by
  simp only [prepare, bind, EStateM.bind, get_ok, Action.ofEval]
  cases e.engine script s.programs s.store <;> rfl

/-- Preparing a script agrees. -/
theorem agree_prepare {e : Evaluator} (hengine : e.engine.IsTransparent) (script : Value) :
    Action.Agree names names history (e.prepare script) (e.prepare script) := by
  intro s s' hs
  rw [prepare_eq, prepare_eq, ← hs.store_eq]
  rcases hs.programs_alike with hequal | ⟨hsound, hsound'⟩
  · rw [← hequal]
    cases e.engine script s.programs s.store with
    | ok prepared σ => exact ⟨rfl, { hs.withStore σ with programs_alike := .inl rfl }⟩
    | error fault σ => exact ⟨rfl, names, { hs.withStore σ with programs_alike := .inl rfl }⟩
  · -- with right programs at hand, both prepare what would be prepared with none
    have hsame : (e.engine script).run' s.programs s.store = (e.engine script).run' s'.programs s.store := by
      rw [hengine.same script _ hsound, hengine.same script _ hsound']
    simp only [StateT.run', Functor.map, EStateM.map] at hsame
    cases hfirst : e.engine script s.programs s.store with
    | ok prepared σ =>
        cases hsecond : e.engine script s'.programs s.store with
        | ok prepared' σ' =>
            simp only [hfirst, hsecond, EStateM.Result.ok.injEq] at hsame
            obtain ⟨hjob, rfl⟩ := hsame
            exact ⟨hjob, { hs.withStore σ with
              programs_alike := .inr ⟨hengine.sound _ _ _ _ _ hsound hfirst,
                hengine.sound _ _ _ _ _ hsound' hsecond⟩ }⟩
        | error fault' σ' => simp [hfirst, hsecond] at hsame
    | error fault σ =>
        cases hsecond : e.engine script s'.programs s.store with
        | ok prepared' σ' => simp [hfirst, hsecond] at hsame
        | error fault' σ' =>
            simp only [hfirst, hsecond, EStateM.Result.error.injEq] at hsame
            obtain ⟨hfault, rfl⟩ := hsame
            exact ⟨hfault, names, hs.withStore σ⟩

/-! ## Items -/

/-- Counts the items and processes them. -/
def tallyItems (e : Evaluator) (records : List Record) (p : Plan) : Action (Nat × Nat) := do
  let total ← Action.ofEval (countDistinct p.keyOf records)
  let processed ← processFrom e p records .empty 0 records
  return (total, processed)

/-- Reports on the items. -/
def reportItems (full : Bool) (total processed : Nat) : Action (String × Nat) := do
  let classification := (← get).classification
  let report ← Action.ofEval (classification.report (.int total) (reportPlaces full))
  modify fun s => { s with description := report }
  return (report, processed)

/-- Reporting on the items, step by step. -/
theorem reportItems_eq (full : Bool) (total processed : Nat) (s : Session) :
    reportItems full total processed s
      = match s.classification.report (.int total) (reportPlaces full) s.store with
        | .ok report σ => .ok (report, processed) { s with store := σ, description := report }
        | .error fault σ => .error fault { s with store := σ } := by
  simp only [reportItems, bind, EStateM.bind, get_ok, Action.ofEval]
  cases s.classification.report (.int total) (reportPlaces full) s.store <;> rfl

/-- A plan is carried out by processing the items and reporting on them. -/
theorem carryOut_eq (e : Evaluator) (records : List Record) (full : Bool) (p : Plan) :
    e.carryOut records full p
      = e.tallyItems records p >>= fun tallied => reportItems full tallied.1 tallied.2 := by
  simp only [carryOut, tallyItems, reportItems, bind_assoc, pure_bind]

/-- Noting a step agrees, where the current item and context are not among the names or the journal
does not count. -/
theorem agree_note (hnames : history → "$ctxI" ∉ names ∧ "$ctxC" ∉ names) (step : Step)
    (item : Record) (context : List Record) :
    Action.Agree names names history (note step item context) (note step item context) := by
  intro s s' hs
  refine ⟨rfl, { hs with journal_eq := fun hhistory => ?_ }⟩
  obtain ⟨hitem, hcontext⟩ := hnames hhistory
  simp only [hs.journal_eq hhistory, hs.store_eq, hs.binder_same.get?_eq hitem,
    hs.binder_same.get?_eq hcontext]

/-- Whether what is run for every item does not look at some names. -/
def JobIgnores (names : List String) (job : Environment → Eval Unit) : Prop :=
  ∀ (b b' : Binder) (classes subclasses : Value), b.SameBut names b' →
    job ⟨b, classes, subclasses⟩ = job ⟨b', classes, subclasses⟩

/-- Running what does not look at the names agrees. -/
theorem agree_execute {job : Environment → Eval Unit} (hjob : JobIgnores names job)
    (classes subclasses : Value) :
    Action.Agree names names history (execute job classes subclasses)
      (execute job classes subclasses) := by
  refine Action.agree_get_bind fun s s' hs => ?_
  rw [hs.store_eq, Environment.make, Environment.make, hjob _ _ _ _ hs.binder_same]
  exact Action.agree_ofEval _

/-- Classifying an item agrees. -/
theorem agree_classify (target : Target) (item : Record) :
    Action.Agree names names history (classify target item) (classify target item) := by
  refine (Action.agree_ofEval _).bind fun value => ?_
  intro s s' hs
  refine ⟨rfl, { hs with classification_eq := ?_ }⟩
  simp only [hs.classification_eq, hs.store_eq]

/-- What runs do not look at: before an item is bound, at some names; from then on, at those among
them that are not the names of the current item and context. -/
structure Ignores (e : Evaluator) (names rest : List String) (history : Prop) : Prop where
  names_sub : names ⊆ "$ctxI" :: "$ctxC" :: rest
  rest_sub : rest ⊆ names
  notes : history → "$ctxI" ∉ names ∧ "$ctxC" ∉ names
  before : ∀ item context,
    Action.Agree names names history (e.before item context) (e.before item context)
  after : ∀ item context,
    Action.Agree rest rest history (e.after item context) (e.after item context)

/-- Handling an item agrees. -/
theorem agree_handleItem {e : Evaluator} (he : e.Ignores names rest history) {p : Plan}
    (hjob : JobIgnores rest p.job) (records : List Record) (item : Record) :
    Action.Agree names rest history (handleItem e p records item)
      (handleItem e p records item) := by
  have hnotes : history → "$ctxI" ∉ rest ∧ "$ctxC" ∉ rest := fun hhistory =>
    ⟨fun h => (he.notes hhistory).1 (he.rest_sub h), fun h => (he.notes hhistory).2 (he.rest_sub h)⟩
  refine (Action.agree_ofEval _).bind fun context => ?_
  refine (agree_note he.notes .before item context).bind fun _ => ?_
  refine (he.before item context).bind fun _ => ?_
  refine ((Action.agree_bind "$ctxI" item.value).mono he.names_sub (List.Subset.refl _)).bind
    fun _ => ?_
  refine (Action.agree_ofEval _).bind fun list => ?_
  refine (Action.agree_bind "$ctxC" list).bind fun _ => ?_
  refine (agree_note hnotes .execute item context).bind fun _ => ?_
  refine (agree_execute hjob _ _).bind fun _ => ?_
  refine (agree_note hnotes .classify item context).bind fun _ => ?_
  refine (agree_classify p.result item).bind fun _ => ?_
  exact (agree_note hnotes .after item context).bind fun _ => he.after item context

/-- Processing an item agrees. -/
theorem agree_processItem {e : Evaluator} (he : e.Ignores names rest history) {p : Plan}
    (hjob : JobIgnores rest p.job) (records : List Record) (item : Record) :
    Action.Agree names rest history (processItem e p records item)
      (processItem e p records item) :=
  (Action.agree_ofEval _).bind fun _ =>
    (agree_handleItem he hjob records item).bind fun _ => Action.agree_ofEval _

/-- Processing one item after the other agrees. -/
theorem agree_processFrom {e : Evaluator} (he : e.Ignores names rest history) {p : Plan}
    (hjob : JobIgnores rest p.job) (records : List Record) (remaining : List Record) :
    ∀ (seen : SeenKeys) (count : Nat),
      Action.Agree names names history (processFrom e p records seen count remaining)
        (processFrom e p records seen count remaining) := by
  induction remaining with
  | nil =>
      intro seen count
      exact Action.agree_pure count
  | cons record remaining ih =>
      intro seen count
      refine (Action.agree_ofEval _).bind fun found => ?_
      cases found with
      | none => exact ih seen count
      | some seen' =>
          refine Action.Agree.bind ?_ fun _ => ih seen' (count + 1)
          exact (agree_processItem he hjob records record).mono (List.Subset.refl _) he.rest_sub

/-- Counting the items and processing them agrees. -/
theorem agree_tallyItems {e : Evaluator} (he : e.Ignores names rest history) {p : Plan}
    (hjob : JobIgnores rest p.job) (records : List Record) :
    Action.Agree names names history (tallyItems e records p) (tallyItems e records p) := by
  refine (Action.agree_ofEval _).bind fun total => ?_
  refine (agree_processFrom he hjob records records .empty 0).bind fun processed => ?_
  exact Action.agree_pure _

/-- Reporting agrees. -/
theorem agree_reportItems (full : Bool) (total processed : Nat) :
    Action.Agree names names history (reportItems full total processed)
      (reportItems full total processed) := by
  refine Action.agree_get_bind fun s s' hs => ?_
  rw [hs.classification_eq]
  refine (Action.agree_ofEval _).bind fun report => ?_
  refine Action.Agree.bind (fun t t' ht => ?_) fun _ => Action.agree_pure _
  exact ⟨rfl, { ht with description_eq := fun _ => rfl }⟩

/-- Carrying out a plan agrees. -/
theorem agree_carryOut {e : Evaluator} (he : e.Ignores names rest history) {p : Plan}
    (hjob : JobIgnores rest p.job) (records : List Record) (full : Bool) :
    Action.Agree names names history (e.carryOut records full p) (e.carryOut records full p) := by
  rw [carryOut_eq]
  exact (agree_tallyItems he hjob records).bind fun tallied => agree_reportItems full _ _

end Evaluator

end Rubric
