import Rubric.Proofs.Evaluator.Past
import Rubric.Proofs.Grouping

/-!
# Items are handled locally

The actions of an evaluator go by what their values may read and write, as scripts do.  Two sessions
are compared by a scope: they have the same bindings, buckets and programs, and their stores agree on
what may be read.  Handling items with two plans is alike where running what the plans run is.

* `Session.Sees`, `Action.Local` : sessions that agree on what may be read, and local actions;
* `FollowsScope` : ways to compare sessions in which such actions are local;
* `alike_handleItem`, `alike_carryOut` : handling an item and carrying out a plan, with one plan and
  with another that runs something else for every item.
-/

namespace Rubric

open Rubric.Script
open Eval StateFrame

/-! ## Sessions that agree -/

/-- Whether two sessions agree on what may be read, and have the same bindings, of which something is
known, the same buckets and description, and the same programs, which are right. -/
structure Session.Sees (F : Scope) (B : Binder → Prop) (s s' : Session) : Prop where
  store : F.Sees s.store s'.store
  binds : B s.binder
  binder_eq : s'.binder = s.binder
  classification_eq : s'.classification = s.classification
  description_eq : s'.description = s.description
  programs_eq : s'.programs = s.programs
  programs_sound : CacheIsSound s.programs

/-- Stores that agree, in sessions that do. -/
theorem Session.Sees.withStore {F : Scope} {B : Binder → Prop} {s s' : Session} (hs : s.Sees F B s')
    {σ σ' : Store} (h : F.Sees σ σ') :
    ({ s with store := σ } : Session).Sees F B { s' with store := σ' } :=
  { hs with store := h }

/-- The sessions of actions, compared by a scope and by what is known of the bindings. -/
def sessionFrame (F : Scope) (B : Binder → Prop) : StateFrame Session where
  sees := Session.Sees F B
  rewrites s t := F.rewrites s.store t.store
  refl _ := F.refl _
  trans := F.trans

/-- Whether an action is local. -/
abbrev Action.Local {α : Type} (F : Scope) (B : Binder → Prop) (action : Action α)
    (post : α → Prop) : Prop :=
  (sessionFrame F B).Local action post

variable {F : Scope} {B : Binder → Prop}

namespace Action

variable {α : Type} {post : α → Prop}

/-- A computation on values that is local is so as an action. -/
theorem local_ofEval {action : Eval α} (h : Eval.Local F action post) :
    Action.Local F B (ofEval action) post where
  ok s s' hs a t hok := by
    simp only [ofEval] at hok ⊢
    cases hresult : action s.store with
    | error fault σ => simp [hresult] at hok
    | ok b σ =>
        simp only [hresult] at hok
        cases hok
        obtain ⟨hpost, hσ, σ', hresult', hsees, hσ'⟩ := h.ok hs.store hresult
        exact ⟨hpost, hσ, { s' with store := σ' }, by rw [hresult'], hs.withStore hsees, hσ'⟩
  error s s' hs fault t herror := by
    simp only [ofEval] at herror ⊢
    cases hresult : action s.store with
    | ok b σ => simp [hresult] at herror
    | error fault' σ =>
        simp only [hresult] at herror
        cases herror
        obtain ⟨hσ, σ', hresult', hsees, hσ'⟩ := h.error hs.store hresult
        exact ⟨hσ, { s' with store := σ' }, by rw [hresult'], hs.withStore hsees, hσ'⟩

/-- A change that keeps the store and leaves sessions in agreement is local. -/
theorem local_modify {change : Session → Session} (hstore : ∀ s, (change s).store = s.store)
    (h : ∀ s s', s.Sees F B s' → (change s).Sees F B (change s')) :
    Action.Local F B (modify change) fun _ => True where
  ok s s' hs _ t hok := by
    cases hok
    refine ⟨trivial, ?_, change s', rfl, h s s' hs, ?_⟩
    · show F.rewrites s.store (change s).store
      rw [hstore]
      exact F.refl _
    · show F.rewrites s'.store (change s').store
      rw [hstore]
      exact F.refl _
  error _ _ _ _ _ herror := by cases herror

/-- Changing the value of a bound name is local where what is known of the bindings stays so. -/
theorem local_bind {name : String} {value : Value}
    (h : ∀ b, B b → B (b.rebind name value none)) :
    Action.Local F B (bind name value) fun _ => True where
  ok s s' hs _ t hok := by
    simp only [bind, Binder.set, hs.binder_eq] at hok ⊢
    by_cases hname : s.binder.contains name = true
    · simp only [hname, if_true] at hok ⊢
      cases hok
      exact ⟨trivial, F.refl _, _, rfl, { hs with binds := h _ hs.binds, binder_eq := rfl }, F.refl _⟩
    · simp [hname] at hok
  error s s' hs fault t herror := by
    simp only [bind, Binder.set, hs.binder_eq] at herror ⊢
    by_cases hname : s.binder.contains name = true
    · simp [hname] at herror
    · simp only [hname] at herror ⊢
      cases herror
      exact ⟨F.refl _, s', rfl, hs, F.refl _⟩

end Action

/-! ## Reports -/

/-- The share of a count in a total is local. -/
theorem local_percentage (count total : Nat) :
    Eval.Local F (percentage (.int count) (.int total)) (Value.Within F.reads) := by
  unfold percentage
  split
  · exact local_throw _
  · refine (Value.local_mul (Value.within_int _) (Value.within_int _)).bind fun scaled hscaled => ?_
    refine local_store_bind (fun _ _ _ => rfl) fun σ _ => ?_
    refine (local_answer _).bind fun x _ => ?_
    cases x with
    | none =>
        exact local_freshTag.bind fun tag _ => Value.local_div hscaled (Value.within_nan tag)
    | some x =>
        show Eval.Local F (shareOf scaled x) _
        unfold shareOf
        split
        · exact (local_answer _).bind fun _ _ => local_throw _
        · exact Value.local_operandFault _ hscaled (Value.within_float x)
        · exact Value.local_div hscaled (Value.within_float x)

/-- The shares of the buckets are local. -/
theorem local_shares (total : Nat) (counts : List (String × Nat)) :
    Eval.Local F (shares (.int total) counts) fun _ => True := by
  induction counts with
  | nil => exact local_pure trivial
  | cons entry counts ih =>
      obtain ⟨label, count⟩ := entry
      have hrest (percent : Option Value) : Eval.Local F (do
          return (⟨label, count, percent⟩ : BucketShare) :: (← shares (.int total) counts))
          fun _ => True := ih.bind fun _ _ => local_pure trivial
      rw [shares]
      split
      · exact hrest none
      · exact (local_percentage count total).bind fun percent _ => hrest (some percent)

/-- Reporting on a classification is local. -/
theorem local_report {α : Type} (c : Classification α) (total : Nat) (places : Int) :
    Eval.Local F (c.report (.int total) places) fun _ => True :=
  (local_shares total c.counts).bind fun _ _ => local_store_bind (fun _ _ _ => rfl) fun _ _ =>
    local_answer _

/-- Whether actions that are local by a scope are so in another way to compare sessions. -/
def FollowsScope (F : Scope) (B : Binder → Prop) (frame : StateFrame Session) : Prop :=
  ∀ {α : Type} {action : Action α} {post : α → Prop},
    Action.Local F B action post → frame.Local action post

/-- Comparing sessions by the scope itself. -/
theorem followsScope_self (F : Scope) (B : Binder → Prop) : FollowsScope F B (sessionFrame F B) :=
  fun h => h

namespace Evaluator

/-! ## Items -/

/-- Whether the records of a dataset are within what may be read. -/
def RecordsWithin (F : Scope) (records : List Record) : Prop :=
  ∀ record ∈ records, record.value.Within F.reads

/-- Whether a hook is local for items and contexts among some records. -/
def HookIsLocal (F : Scope) (B : Binder → Prop) (records : List Record) (hook : Hook) : Prop :=
  ∀ item ∈ records, ∀ context, (∀ record ∈ context, record ∈ records) →
    Action.Local F B (hook item context) fun _ => True

/-- Whether what a plan reads with is within what may be read. -/
structure PlanWithin (F : Scope) (p : Plan) : Prop where
  key : p.key.Within F.reads
  relation : p.relation.Within F.reads
  result : p.result.selector.Within F.reads

/-- Whether the records of a dataset are within what may be read, the hooks of an evaluator are local
for them, and binding them and lists of them keeps what is known of the bindings. -/
structure ItemsAreLocal (F : Scope) (B : Binder → Prop) (e : Evaluator) (records : List Record) :
    Prop where
  within : RecordsWithin F records
  before : HookIsLocal F B records e.before
  after : HookIsLocal F B records e.after
  bindItem : ∀ b, ∀ record ∈ records, B b → B (b.rebind "$ctxI" record.value none)
  bindContext : ∀ b v, B b → v.Within F.reads → B (b.rebind "$ctxC" v none)

/-- Noting a step is local. -/
theorem local_note (step : Step) (item : Record) (context : List Record) :
    Action.Local F B (note step item context) fun _ => True :=
  Action.local_modify (fun _ => rfl) fun _ _ hs => { hs with }

/-- Running a prepared script is local where the script is, in every environment with such bindings. -/
theorem local_execute {job : Environment → Eval Unit} {classes subclasses : Value}
    (hclasses : classes.Within F.reads) (hsubclasses : subclasses.Within F.reads)
    (hjob : ∀ env, B env.binder → env.classes.Within F.reads → env.subclasses.Within F.reads →
      Eval.Local F (job env) fun _ => True) :
    Action.Local F B (execute job classes subclasses) fun _ => True := by
  have htable (σ : Store) {v : Value} (hv : v.Within F.reads) :
      (if v.truthy σ then v else .null).Within F.reads := by
    split
    · exact hv
    · exact Value.within_null
  have hsame (s s' : Session) (hs : s.Sees F B s') :
      Environment.make s'.store s'.binder classes subclasses
        = Environment.make s.store s.binder classes subclasses := by
    simp only [Environment.make, hs.binder_eq, Value.truthy_agree hs.store hclasses,
      Value.truthy_agree hs.store hsubclasses]
  refine local_get_bind (fun s s' hs => by rw [hsame s s' hs]) fun s s' hs => ?_
  exact Action.local_ofEval (hjob _ hs.binds (htable s.store hclasses) (htable s.store hsubclasses))

/-- Stores that agree have the same program for a script, and the same programs kept. -/
theorem compileCached_agree {σ σ' : Store} (h : F.Sees σ σ') {script : Value}
    (hscript : script.Within F.reads) (cache : ProgramCache) :
    compileCached σ' true cache script = compileCached σ true cache script := by
  unfold compileCached
  rw [Value.requireHashable_agree h hscript]
  cases script with
  | str text => rfl
  | _ => simp only [Value.typeName_agree h hscript]

/-- What the engine of the script language prepares is the program of the script; preparing it is
local. -/
theorem local_prepare {e : Evaluator} (hengine : e.engine = scriptEngine) {script : Value}
    (hscript : script.Within F.reads) :
    Action.Local F B (e.prepare script) fun job =>
      ∃ text program, script = .str text ∧ compileText true text = .ok program ∧
        job = programJob program where
  ok s s' hs job t hok := by
    have hcached := compileCached_sound hs.programs_sound s.store script
    rw [prepare_eq, hengine, scriptEngine_eq] at hok ⊢
    rw [hs.programs_eq, compileCached_agree hs.store hscript]
    cases hprepared : compileCached s.store true s.programs script with
    | error fault => simp [hprepared] at hok
    | ok prepared =>
        simp only [hprepared] at hok ⊢
        cases hok
        rw [hprepared] at hcached
        obtain ⟨text, hscript', hprogram⟩ := compileText_of_compile hcached.1.symm
        exact ⟨⟨text, _, hscript', hprogram, rfl⟩, F.refl _, _, rfl,
          { hs with programs_eq := rfl, programs_sound := hcached.2 _ rfl }, F.refl _⟩
  error s s' hs fault t herror := by
    rw [prepare_eq, hengine, scriptEngine_eq] at herror ⊢
    rw [hs.programs_eq, compileCached_agree hs.store hscript]
    cases hprepared : compileCached s.store true s.programs script with
    | ok prepared => simp [hprepared] at herror
    | error fault' =>
        simp only [hprepared] at herror ⊢
        cases herror
        exact ⟨F.refl _, _, rfl, { hs with programs_eq := rfl }, F.refl _⟩

/-- Putting an item under its label is local. -/
theorem local_classify {target : Target} (htarget : target.selector.Within F.reads) {item : Record}
    (hitem : item.value.Within F.reads) :
    Action.Local F B (classify target item) fun _ => True := by
  refine (Action.local_ofEval (Selector.local_read htarget hitem)).bind fun result hresult => ?_
  refine Action.local_modify (fun _ => rfl) fun s s' hs => { hs with classification_eq := ?_ }
  simp only [hs.classification_eq, Value.label_agree hs.store hresult]

/-- Going on with the tags of an item is local. -/
theorem local_openItem (position : Nat) :
    Eval.Local F (Eval.openItem position) fun _ => True where
  ok σ σ' hσ tag τ hok := by
    cases hok
    refine ⟨trivial, F.withTag σ _, { σ' with nextTag := ⟨σ.nextTag.run, some position, 0⟩ }, ?_,
      sees_withTag hσ _, F.withTag σ' _⟩
    show EStateM.Result.ok σ'.nextTag _ = _
    rw [hσ.nextTag_eq]
  error _ _ _ _ _ herror := by cases herror

/-- Going on from an earlier tag is local. -/
theorem local_resumeTags (tag : Tag) : Eval.Local F (Eval.resumeTags tag) fun _ => True where
  ok σ σ' hσ _ τ hok := by
    cases hok
    exact ⟨trivial, F.withTag σ _, _, rfl, sees_withTag hσ _, F.withTag σ' _⟩
  error _ _ _ _ _ herror := by cases herror

section

variable {frame : StateFrame Session} {e : Evaluator} {p : Plan} {records : List Record}
  {job : Environment → Eval Unit} {classes subclasses : Value}

/-- Handling an item with two plans is alike where running what they run is. -/
theorem alike_handleItem (hframe : FollowsScope F B frame) (he : ItemsAreLocal F B e records)
    (hp : PlanWithin F p)
    (hexecute : frame.Alike (execute p.job p.classes p.subclasses) (execute job classes subclasses)
      fun _ => True) {item : Record} (hitem : item ∈ records) :
    frame.Alike (handleItem e p records item)
      (handleItem e { p with job := job, classes := classes, subclasses := subclasses } records item)
      fun _ => True := by
  have hnote (step : Step) (context : List Record) :
      frame.Local (note step item context) fun _ => True := hframe (local_note step item context)
  have hrelates : ∀ record ∈ records, Eval.Local F (p.relates record item) fun _ => True :=
    fun record hrecord => local_related hp.relation (he.within record hrecord) (he.within item hitem)
  refine (hframe (Action.local_ofEval (local_contextOf hrelates))).bind fun context hsub => ?_
  refine (hnote .before context).bind fun _ _ => ?_
  refine (hframe (he.before item hitem context hsub)).bind fun _ _ => ?_
  refine (hframe (Action.local_bind fun b hb => he.bindItem b item hitem hb)).bind fun _ _ => ?_
  refine (hframe (Action.local_ofEval (local_newList fun v hv => ?_))).bind fun list hlist => ?_
  · obtain ⟨record, hrecord, rfl⟩ := List.mem_map.mp hv
    exact he.within record (hsub record hrecord)
  refine (hframe (Action.local_bind fun b hb => he.bindContext b _ hb hlist)).bind fun _ _ => ?_
  refine (hnote .execute context).bind fun _ _ => ?_
  refine hexecute.bind fun _ _ => ?_
  refine (hnote .classify context).bind fun _ _ => ?_
  refine (hframe (local_classify hp.result (he.within item hitem))).bind fun _ _ => ?_
  exact (hnote .after context).bind fun _ _ => hframe (he.after item hitem context hsub)

/-- So is processing an item. -/
theorem alike_processItem (hframe : FollowsScope F B frame) (he : ItemsAreLocal F B e records)
    (hp : PlanWithin F p)
    (hexecute : frame.Alike (execute p.job p.classes p.subclasses) (execute job classes subclasses)
      fun _ => True) {item : Record} (hitem : item ∈ records) :
    frame.Alike (processItem e p records item)
      (processItem e { p with job := job, classes := classes, subclasses := subclasses } records item)
      fun _ => True :=
  (hframe (Action.local_ofEval (local_openItem item.position))).bind fun outer _ =>
    (alike_handleItem hframe he hp hexecute hitem).bind fun _ _ =>
      hframe (Action.local_ofEval (local_resumeTags outer))

/-- So is processing one item after the other. -/
theorem alike_processFrom (hframe : FollowsScope F B frame) (he : ItemsAreLocal F B e records)
    (hp : PlanWithin F p)
    (hexecute : frame.Alike (execute p.job p.classes p.subclasses) (execute job classes subclasses)
      fun _ => True) {remaining : List Record} (hremaining : ∀ record ∈ remaining, record ∈ records) :
    ∀ {seen : SeenKeys} (count : Nat), seen.Within F.reads →
      frame.Alike (processFrom e p records seen count remaining)
        (processFrom e { p with job := job, classes := classes, subclasses := subclasses } records seen
          count remaining) fun _ => True := by
  induction remaining with
  | nil => exact fun _ _ => local_pure trivial
  | cons record remaining ih =>
      intro seen count hseen
      obtain ⟨hrecord, hrest⟩ := List.forall_mem_cons.mp hremaining
      have hkey : Eval.Local F (p.keyOf record) (Value.Within F.reads) :=
        Selector.local_read hp.key (he.within record hrecord)
      refine (hframe (Action.local_ofEval (local_firstOfKey? hseen hkey))).bind fun found hfound => ?_
      cases found with
      | none => exact ih hrest count hseen
      | some seen' =>
          exact (alike_processItem hframe he hp hexecute hrecord).bind fun _ _ =>
            ih hrest (count + 1) (hfound seen' rfl)

/-- Reporting on the items is local. -/
theorem local_reportItems (full : Bool) (total processed : Nat) :
    Action.Local F B (reportItems full total processed) fun _ => True := by
  refine local_get_bind (fun s s' hs => by rw [hs.classification_eq]) fun s s' _ => ?_
  refine (Action.local_ofEval (local_report s.classification total _)).bind fun report _ => ?_
  have hdescribe : Action.Local F B (modify fun s => { s with description := report })
      fun _ => True :=
    Action.local_modify (fun _ => rfl) fun s s' hs => { hs with description_eq := rfl }
  exact hdescribe.bind fun _ _ => local_pure trivial

/-- Counting and processing the items with two plans is alike where running what they run is. -/
theorem alike_tallyItems (hframe : FollowsScope F B frame) (he : ItemsAreLocal F B e records)
    (hp : PlanWithin F p)
    (hexecute : frame.Alike (execute p.job p.classes p.subclasses) (execute job classes subclasses)
      fun _ => True) :
    frame.Alike (e.tallyItems records p)
      (e.tallyItems records { p with job := job, classes := classes, subclasses := subclasses })
      fun _ => True := by
  have hkeys : ∀ record ∈ records, Eval.Local F (p.keyOf record) (Value.Within F.reads) :=
    fun record hrecord => Selector.local_read hp.key (he.within record hrecord)
  refine (hframe (Action.local_ofEval (local_countDistinct hkeys))).bind fun total _ => ?_
  exact (alike_processFrom hframe he hp hexecute (fun _ h => h) 0 SeenKeys.within_empty).bind
    fun processed _ => local_pure trivial

/-- Carrying out two plans is alike where running what they run for an item is. -/
theorem alike_carryOut (hframe : FollowsScope F B frame) (he : ItemsAreLocal F B e records)
    (hp : PlanWithin F p)
    (hexecute : frame.Alike (execute p.job p.classes p.subclasses) (execute job classes subclasses)
      fun _ => True) (full : Bool) :
    frame.Alike (e.carryOut records full p)
      (e.carryOut records full { p with job := job, classes := classes, subclasses := subclasses })
      fun _ => True := by
  rw [carryOut_eq, carryOut_eq]
  exact (alike_tallyItems hframe he hp hexecute).bind fun tallied _ =>
    hframe (local_reportItems full tallied.1 tallied.2)

end

end Evaluator

end Rubric
