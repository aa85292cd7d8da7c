import Rubric.Proofs.Evaluator.Locality
import Rubric.Proofs.Evaluator.Variants
import Rubric.Proofs.Record.Selectors
import Rubric.Proofs.Script.Points

/-!
# How runs begin

A run of either kind compiles what it is asked for and binds it, and goes on with its relation, the
descriptions of labels and its script.  What holds of a session and is kept by binding compiled
selectors and targets, holds when the relation is bound.

* `Run.opening`, `Run.plan_eq` : the part before the relation, which the descriptions do not matter for;
* `OpeningKeeps.opening` : what this part keeps.
-/

namespace Rubric

open Rubric.Script

namespace Evaluator

/-! ## The parts of a plan -/

/-- What a full run compiles and binds before its relation; answers the item key and the result
field. -/
def fullOpening (e : Evaluator) (request : Request) : Action (Selector × Target) := do
  let key ← e.compiled Resolver.compileKey request.itemKey
  let result ← e.compiled Resolver.compileTarget request.resultKey
  let obs ← e.compiled Resolver.compileTarget request.obsKey
  e.bindCompiled "evalKey" Resolver.compile request.evalKey
  e.bindCompiled "evalKeyDisplayValue" Resolver.compileDisplay request.itemDisplay
  e.bindCompiled "evalBasedKey" Resolver.compile request.evalBasedKey
  e.bindCompiled "evalBasedKeyDisplayValue" Resolver.compileDisplay request.evalBasedDisplay
  Action.bind "itemKey" (.selector key)
  Action.bind "resultKey" result.toValue
  Action.bind "$result" result.toValue
  Action.bind "$obs" obs.toValue
  return (key, result)

/-- What a simplified run compiles and binds before its relation. -/
def simpleOpening (e : Evaluator) (request : SimpleRequest) : Action (Selector × Target) := do
  let key ← e.compiled Resolver.compileKey request.itemKey
  let result ← e.resultTarget request.resultKey
  Action.bind "itemKey" (.selector key)
  Action.bind "$result" result.toValue
  return (key, result)

namespace Run

/-- What a run compiles and binds before its relation. -/
def opening (e : Evaluator) : Run → Action (Selector × Target)
  | full _ request => e.fullOpening request
  | simple _ request => e.simpleOpening request

/-- The relation that a run is asked for. -/
def relation : Run → Value
  | full _ request => request.relation
  | simple _ request => request.relation

/-- The script of a run. -/
def script : Run → Value
  | full _ request => request.script
  | simple _ request => request.script

/-- The descriptions of labels that a run is given. -/
def classes : Run → Value
  | full _ request => request.classes
  | simple _ request => request.classes

/-- The auxiliary descriptions that a run is given. -/
def subclasses : Run → Value
  | full _ request => request.subclasses
  | simple _ request => request.subclasses

/-- The expressions of the result field, and of the field for observations in a full run. -/
def targets : Run → List Value
  | full _ request => [request.resultKey, request.obsKey]
  | simple _ request => [request.resultKey]

/-- The expressions of a run that are compiled to selectors. -/
def selectors : Run → List Value
  | full _ request => [request.itemKey, request.evalKey, request.itemDisplay, request.evalBasedKey,
      request.evalBasedDisplay]
  | simple _ request => [request.itemKey]

/-- What a run is given, its auxiliary descriptions aside. -/
def given (r : Run) : List Value :=
  r.records.map Record.value ++ r.selectors ++ r.targets ++ [r.relation, r.script, r.classes]

/-- A run prepares its plan in two parts. -/
theorem plan_eq (e : Evaluator) (r : Run) :
    r.plan e = r.opening e >>= fun opened =>
      e.sharedPlan opened.1 opened.2 r.relation r.script r.classes r.subclasses := by
  cases r with
  | full values request =>
      simp only [plan, opening, fullPlan, fullOpening, sharedPlan, relation, script, classes,
        subclasses, bind_assoc, pure_bind]
  | simple values request =>
      simp only [plan, opening, simplePlan, simpleOpening, sharedPlan, relation, script, classes,
        subclasses, bind_assoc, pure_bind]

/-- The steps of a run, one after the other. -/
theorem steps_eq (e : Evaluator) (r : Run) :
    r.plan e >>= e.carryOut r.records r.isFull = r.opening e >>= fun opened =>
      Action.ofEval (relationOr opened.1 r.relation) >>= fun relation =>
        bindShared relation r.classes r.subclasses >>= fun _ =>
          e.prepare r.script >>= fun job => e.carryOut r.records r.isFull
            ⟨opened.1, relation, opened.2, job, r.classes, r.subclasses⟩ := by
  simp only [plan_eq, sharedPlan, bind_assoc, pure_bind]

end Run

/-! ## What the opening keeps -/

/-- The names that are bound to selectors, and those that are bound to targets. -/
def selectorNames : List String :=
  ["evalKey", "evalKeyDisplayValue", "evalBasedKey", "evalBasedKeyDisplayValue", "itemKey"]

@[inherit_doc selectorNames] def targetNames : List String := ["resultKey", "$result", "$obs"]

/-- Whether a property of sessions is kept by what the opening of a run does, where selectors are
within a region and targets have a property, which the target bound before has, too. -/
structure OpeningKeeps (e : Evaluator) (region : Region) (T : Target → Prop) (I : Session → Prop) :
    Prop where
  select : ∀ name ∈ selectorNames, ∀ s : Selector, s.Within region →
    Maintains I (fun _ => True) (Action.bind name (.selector s))
  target : ∀ name ∈ targetNames, ∀ t, T t → Maintains I (fun _ => True) (Action.bind name t.toValue)
  before : ∀ s b, I s → s.binder.get? "resultKey" = some b →
    (∀ t, Target.ofValue? b.value = some t → T t) ∧
      ∀ σ t, e.resolver.compileTarget σ b.value = .ok t → T t
  tags : ∀ (s : Session) (runs : Nat) (tag : Tag), I s →
    I { s with store := { s.store with runs := runs, nextTag := tag } }

/-- A value that is a target is that target as a value. -/
theorem toValue_of_ofValue? {v : Value} {t : Target} (h : Target.ofValue? v = some t) :
    v = t.toValue := by
  unfold Target.ofValue? at h
  split at h
  · cases h
    rfl
  · cases h

/-- Compiling an expression keeps every property. -/
theorem maintains_compiled {α : Type} {I : Session → Prop} {post : α → Prop} (e : Evaluator)
    {compile : Resolver → Store → Value → Except Fault α} {expression : Value}
    (h : ∀ σ a, compile e.resolver σ expression = .ok a → post a) :
    Maintains I post (e.compiled compile expression) := by
  intro s hs
  refine ⟨rfl, ?_⟩
  cases hcompiled : compile e.resolver s.store expression with
  | ok a =>
      rw [compiled_of_ok hcompiled]
      exact ⟨h _ _ hcompiled, hs⟩
  | error fault =>
      rw [compiled_of_error hcompiled]
      exact hs

/-- What ends the same in all sessions with a property, ends the same after what keeps the property. -/
theorem ends_of_maintains {α β : Type} {frame : StateFrame Session} {I : Session → Prop}
    {post : α → Prop} {first : Action α} {second second' : α → Action β} {s : Session}
    (hfirst : Maintains I post first) (hself : ∀ t, I t → frame.sees t t) (hs : I s)
    (hsecond : ∀ a t, post a → I t → frame.Ends (second a t) (second' a t)) :
    frame.Ends ((first >>= second) s) ((first >>= second') s) := by
  obtain ⟨-, hkept⟩ := hfirst s hs
  refine StateFrame.ends_after (P := fun a t => post a ∧ I t) ?_ fun a t h => hsecond a t h.1 h.2
  cases hresult : first s with
  | ok a t =>
      rw [hresult] at hkept
      exact hkept
  | error fault t =>
      rw [hresult] at hkept
      exact hself t hkept

namespace OpeningKeeps

variable {e : Evaluator} {region : Region} {T : Target → Prop} {I : Session → Prop}

/-- Binding a compiled selector keeps the property. -/
theorem bindCompiled (h : OpeningKeeps e region T I) {name : String} (hname : name ∈ selectorNames)
    {compile : Resolver → Store → Value → Except Fault Selector} {expression : Value}
    (hcompile : ∀ σ s, compile e.resolver σ expression = .ok s → s.Within region) :
    Maintains I (fun _ => True) (e.bindCompiled name compile expression) :=
  (maintains_compiled e hcompile).bind fun s hs => h.select name hname s hs

/-- Binding the result field keeps the property. -/
theorem bindResultKey (h : OpeningKeeps e region T I) {expression : Value}
    (hresult : ∀ σ t, e.resolver.compileTarget σ expression = .ok t → T t) :
    Maintains I T (e.bindResultKey expression) :=
  (maintains_compiled e hresult).bind fun t ht =>
    (h.target "resultKey" (by decide) t ht).bind fun _ _ => maintains_pure ht

/-- Finding the result field keeps the property. -/
theorem resultTarget (h : OpeningKeeps e region T I) {expression : Value}
    (hresult : ∀ σ t, e.resolver.compileTarget σ expression = .ok t → T t) :
    Maintains I T (e.resultTarget expression) := by
  unfold Evaluator.resultTarget
  split
  · exact h.bindResultKey hresult
  · -- no field is asked for, so the one that was bound before is used
    intro s hs
    cases hbound : s.binder.get? "resultKey" with
    | none =>
        have herror : Action.bound "resultKey" s = .error (.unknownBinding "resultKey") s := by
          simp [Action.bound, Binder.get, hbound]
        rw [bind_of_error herror]
        exact ⟨rfl, hs⟩
    | some b =>
        have hok : Action.bound "resultKey" s = .ok b.value s := by
          simp [Action.bound, Binder.get, hbound]
        rw [bind_of_ok hok]
        obtain ⟨htarget, hcompile⟩ := h.before s b hs hbound
        refine (?_ : Maintains I T _) s hs
        split
        · exact maintains_throw _
        · split
          · rename_i t ht
            exact maintains_pure (htarget t ht)
          · exact h.bindResultKey hcompile

/-- The opening of a run keeps the property; it answers a key within the region and a target with
the property of targets. -/
theorem opening (h : OpeningKeeps e region T I) {r : Run}
    (hselectors : ∀ v ∈ r.selectors, v.Within region)
    (htargets : ∀ v ∈ r.targets, ∀ σ t, e.resolver.compileTarget σ v = .ok t → T t) :
    Maintains I (fun opened => opened.1.Within region ∧ T opened.2) (r.opening e) := by
  cases r with
  | full values request =>
      simp only [Run.selectors, List.forall_mem_cons] at hselectors
      simp only [Run.targets, List.forall_mem_cons] at htargets
      obtain ⟨hitemKey, hevalKey, hitemDisplay, hevalBasedKey, hevalBasedDisplay, -⟩ := hselectors
      obtain ⟨hresult, hobs, -⟩ := htargets
      -- step by step: what is compiled is within the region, and binding it keeps the property
      have hkey := maintains_compiled (I := I) e fun σ s hs =>
        Resolver.compileKey_within (r := e.resolver) (σ := σ) (s := s) hs hitemKey
      refine hkey.bind fun key hkey => ?_
      refine (maintains_compiled e hresult).bind fun result hresult => ?_
      refine (maintains_compiled e hobs).bind fun obs hobs => ?_
      refine (h.bindCompiled (by decide) fun σ s hs => Resolver.compile_within hs hevalKey).bind
        fun _ _ => ?_
      refine (h.bindCompiled (by decide) fun σ s hs =>
        Resolver.compileDisplay_within hs hitemDisplay).bind fun _ _ => ?_
      refine (h.bindCompiled (by decide) fun σ s hs => Resolver.compile_within hs hevalBasedKey).bind
        fun _ _ => ?_
      refine (h.bindCompiled (by decide) fun σ s hs =>
        Resolver.compileDisplay_within hs hevalBasedDisplay).bind fun _ _ => ?_
      refine (h.select _ (by decide) key hkey).bind fun _ _ => ?_
      refine (h.target _ (by decide) result hresult).bind fun _ _ => ?_
      refine (h.target _ (by decide) result hresult).bind fun _ _ => ?_
      exact (h.target _ (by decide) obs hobs).bind fun _ _ => maintains_pure ⟨hkey, hresult⟩
  | simple values request =>
      simp only [Run.selectors, List.forall_mem_cons] at hselectors
      simp only [Run.targets, List.forall_mem_cons] at htargets
      have hkey := maintains_compiled (I := I) e fun σ s hs =>
        Resolver.compileKey_within (r := e.resolver) (σ := σ) (s := s) hs hselectors.1
      refine hkey.bind fun key hkey => ?_
      refine (h.resultTarget htargets.1).bind fun result hresult => ?_
      refine (h.select _ (by decide) key hkey).bind fun _ _ => ?_
      exact (h.target _ (by decide) result hresult).bind fun _ _ => maintains_pure ⟨hkey, hresult⟩

/-- Finding the relation keeps the property, and answers what is within the region. -/
theorem relationOr (h : OpeningKeeps e region T I) {key : Selector} (hkey : key.Within region)
    {relation : Value} (hrelation : relation.Within region) :
    Maintains I (fun v => v.Within region) (Action.ofEval (relationOr key relation)) := by
  intro s hs
  refine ⟨rfl, ?_⟩
  have hanswer : ∃ v runs tag, v.Within region ∧ Evaluator.relationOr key relation s.store
      = .ok v { s.store with runs := runs, nextTag := tag } := by
    unfold Evaluator.relationOr
    have hopen : Eval.openRun s.store = .ok () { s.store with
      runs := s.store.runs + 1, nextTag := ⟨s.store.runs + 1, none, 0⟩ } := rfl
    rw [bind_of_ok hopen, bind_of_ok (get_ok _)]
    split
    · exact ⟨relation, _, _, hrelation, rfl⟩
    · exact ⟨_, _, _, Value.within_function.mpr (Function.within_sameKey.mpr hkey), rfl⟩
  obtain ⟨v, runs, tag, hv, hok⟩ := hanswer
  rw [Action.ofEval, hok]
  exact ⟨hv, h.tags s runs tag hs⟩

end OpeningKeeps

end Evaluator

end Rubric
