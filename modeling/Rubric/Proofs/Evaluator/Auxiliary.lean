import Rubric.Proofs.Evaluator.Opening
import Rubric.Proofs.Evaluator.Start
import Rubric.Proofs.Script.Locality
import Rubric.Proofs.Value.Mapping

/-!
# Auxiliary descriptions stay out of sight

A run copies its auxiliary descriptions into a mapping of its own, binds `$subclasses` to that, and
hands the descriptions themselves to the functions that look them up.  A script that neither mentions
`$subclasses` nor calls such a function gets at neither, so two runs that differ in the auxiliary
descriptions only are the same but for the contents of the copy.

* `Program.AsksNoSubclasses`, `Program.run_withoutSubclasses` : scripts that do not look at auxiliary
  descriptions;
* `Scope.hiding` : everything may be read and written but one mapping;
* `subclasses_stay_hidden` : runs that differ in the auxiliary descriptions end alike.
-/

namespace Rubric

open Rubric.Script
open Value (Place)
open Value Eval StateFrame

/-! ## Scripts that do not ask -/

namespace Script

/-- Whether a script neither mentions the auxiliary descriptions nor calls a function that looks them
up, in any case. -/
structure Program.AsksNoSubclasses (p : Program) : Prop where
  unmentioned : "$subclasses" ∉ p.mentions
  uncalled : ∀ function ∈ p.calledFunctions,
    Builtin.ofName? function ≠ some .subclass ∧ Builtin.ofName? function ≠ some .hasClass

/-- An environment without auxiliary descriptions. -/
def Environment.withoutSubclasses (env : Environment) : Environment :=
  ⟨env.binder.blank ["$subclasses"], env.classes, .null⟩

/-- The functions that do not look at auxiliary descriptions do the same whatever these are. -/
theorem builtinCall_subclasses {b : Builtin} (hsubclass : b ≠ .subclass) (hhasClass : b ≠ .hasClass)
    (env : Environment) (subclasses : Value) (args : List Value) :
    b.call env args = b.call { env with subclasses := subclasses } args := by
  cases b with
  | subclass => exact absurd rfl hsubclass
  | hasClass => exact absurd rfl hhasClass
  | _ => rfl

/-- A call of another function does the same whatever the auxiliary descriptions are. -/
theorem callNamed_subclasses {function : String}
    (hcalled : Builtin.ofName? function ≠ some .subclass ∧
      Builtin.ofName? function ≠ some .hasClass)
    (env : Environment) (subclasses : Value) (locals : Locals) (args : List Value) :
    callNamed env locals function args
      = callNamed { env with subclasses := subclasses } locals function args := by
  unfold callNamed
  split
  · rfl
  · cases env.binder.get? function with
    | some binding => rfl
    | none =>
        cases hb : Builtin.ofName? function with
        | none => rfl
        | some b =>
            exact builtinCall_subclasses (fun h => hcalled.1 (h ▸ hb)) (fun h => hcalled.2 (h ▸ hb))
              env subclasses args

/-- A script that does not ask for auxiliary descriptions does what it does without any. -/
theorem Program.run_withoutSubclasses {p : Program} (hp : p.AsksNoSubclasses) (env : Environment) :
    p.run env = p.run env.withoutSubclasses := by
  have hblank : env.SameBut ["$subclasses"]
      { env with binder := env.binder.blank ["$subclasses"] } :=
    ⟨(Binder.blank_blank (List.Subset.refl _) env.binder).symm, rfl, rfl, by decide, by decide,
      by decide⟩
  have hmentions : ∀ name ∈ p.mentions, name ∉ ["$subclasses"] := by
    intro name hname
    rw [List.mem_singleton]
    exact fun h => hp.unmentioned (h ▸ hname)
  rw [Program.run_sameBut hblank hmentions]
  -- of the parts of a script only calls look at the descriptions
  refine Program.run_congr fun s hs => ⟨fun part hpart => ?_, ?_⟩
  · cases part with
    | call function args =>
        have hfunction : function ∈ p.calledFunctions :=
          List.mem_filterMap.mpr ⟨.call function args, List.mem_flatMap.mpr ⟨s, hs, hpart⟩, rfl⟩
        exact fun locals args => callNamed_subclasses (hp.uncalled function hfunction) _ _ _ _
    | var ident => exact fun _ => rfl
    | name ident => exact (rfl : lookupName _ _ = lookupName _ _)
    | _ => trivial
  · cases s with
    | assign line var path value =>
        cases path with
        | nil => exact fun _ => rfl
        | cons field path => exact fun _ => rfl
    | foreach line var collection body => exact (rfl : Binder.contains _ _ = Binder.contains _ _)
    | _ => trivial

end Script

/-! ## A mapping that is hidden -/

/-- Everything may be read and written but one mapping. -/
def Scope.hiding (hidden : Nat) : Scope where
  reads := ⟨{p | p ≠ .mapping hidden}, Set.univ⟩
  mayWrite _ _ := True
  rewrites _ _ := True
  setters_may _ _ _ _ := trivial
  refl _ := trivial
  trans _ _ := trivial
  withTag _ _ := trivial
  setEntries _ _ _ _ _ _ _ := trivial
  setAttributes _ _ _ _ _ _ _ _ := trivial

/-- The bindings that may be looked at where a mapping is hidden: all but that of the auxiliary
descriptions. -/
def BindsHiding (hidden : Nat) (b : Binder) : Prop :=
  b.WithinBut ["$subclasses"] (Scope.hiding hidden).reads

section

variable {hidden : Nat}

/-- Without auxiliary descriptions, an environment gives out nothing that leads to what is hidden. -/
theorem within_withoutSubclasses {env : Environment} (hbinds : BindsHiding hidden env.binder)
    (hclasses : env.classes.Within (Scope.hiding hidden).reads) :
    env.withoutSubclasses.Within (Scope.hiding hidden) := by
  have hvalue {name : String} {b : Binding} (h : env.withoutSubclasses.binder.get? name = some b) :
      b.value.Within (Scope.hiding hidden).reads := by
    rw [Environment.withoutSubclasses, Binder.get?_blank] at h
    obtain ⟨old, hold, rfl⟩ := Option.map_eq_some_iff.mp h
    unfold Binding.blank
    split
    · exact within_null
    · rename_i hname
      rw [Binder.name_of_get? hold] at hname
      exact hbinds name old hold hname
  have hnamed (name : String) :
      (env.withoutSubclasses.valueOf name).Within (Scope.hiding hidden).reads := by
    unfold Environment.valueOf
    cases hget : env.withoutSubclasses.binder.get? name with
    | none => exact within_null
    | some b => exact hvalue hget
  exact ⟨fun _ _ hget _ => hvalue hget, fun _ _ hget _ => .inl (hvalue hget), hnamed _, hnamed _,
    hnamed _, hclasses, within_null⟩

/-- A script that does not ask for auxiliary descriptions does not look at what is hidden. -/
theorem local_programJob_hiding {p : Program} (hp : p.AsksNoSubclasses) {env : Environment}
    (hbinds : BindsHiding hidden env.binder)
    (hclasses : env.classes.Within (Scope.hiding hidden).reads) :
    Eval.Local (Scope.hiding hidden) (programJob p env) fun _ => True := by
  have henv := within_withoutSubclasses hbinds hclasses
  have hwrites : env.withoutSubclasses.MayWrite (Scope.hiding hidden) := by
    intro hitem name b hget hkind v hv
    rcases henv.fields name b hget hkind with hwithin | ⟨s, assign, hvalue, hs⟩
    · exact local_assignBound_within hitem hkind hwithin hv
    · refine local_assignBound_within hitem hkind ?_ hv
      rw [hvalue]
      exact within_target.mpr ⟨hs, fun _ _ _ _ => trivial⟩
  rw [programJob, Program.run_withoutSubclasses hp]
  exact (Program.local_runWhere henv hwrites fun _ _ _ _ _ _ => trivial).bind fun _ _ =>
    local_pure trivial

end

/-! ## Runs -/

namespace Evaluator

/-- The same run with other auxiliary descriptions. -/
def Run.withSubclasses (subclasses : Value) : Run → Run
  | full values request => full values { request with subclasses := subclasses }
  | simple values request => simple values { request with subclasses := subclasses }

/-- Whether a script, if it can be compiled, asks for no auxiliary descriptions. -/
def AsksNoSubclasses (script : Value) : Prop :=
  ∀ text program, script = .str text → compileText true text = .ok program →
    program.AsksNoSubclasses

/-- Whether two runs ended the same: with the same outcome, the same buckets and description, and the
same contents of all values but one mapping. -/
structure EndSameBut (hidden : Nat) (first second : Outcome × Session) : Prop where
  outcome_eq : first.1 = second.1
  classification_eq : first.2.classification = second.2.classification
  description_eq : first.2.description = second.2.description
  entries_eq : ∀ address, address ≠ hidden →
    first.2.store.entries address = second.2.store.entries address
  object_eq : ∀ address, first.2.store.object address = second.2.store.object address

/-- Whether the hooks of an evaluator, for some records, go by what they are handed, by other mappings
than one, and by other bindings than that of the auxiliary descriptions. -/
structure HooksMiss (e : Evaluator) (hidden : Nat) (records : List Record) : Prop where
  before : HookIsLocal (Scope.hiding hidden) (BindsHiding hidden) records e.before
  after : HookIsLocal (Scope.hiding hidden) (BindsHiding hidden) records e.after

/-- Whether nothing in a session leads to the mapping that is to be hidden, which is made after some
others. -/
structure Ready (hidden before : Nat) (s : Session) : Prop where
  closed : s.store.Closed (Scope.hiding hidden).reads
  size_eq : s.store.mappings.size + before = hidden
  binds : BindsHiding hidden s.binder
  programs_sound : CacheIsSound s.programs

/-- A session in which nothing leads to what is hidden agrees with itself. -/
theorem Ready.sees {hidden before : Nat} {s : Session} (hs : Ready hidden before s) :
    s.Sees (Scope.hiding hidden) (BindsHiding hidden) s :=
  ⟨.refl hs.closed, hs.binds, rfl, rfl, rfl, rfl, hs.programs_sound⟩

section

variable {e : Evaluator} {hidden before : Nat}

/-- A target is within what may be read where its selector is. -/
theorem within_toValue {t : Target} (h : t.selector.Within (Scope.hiding hidden).reads) :
    t.toValue.Within (Scope.hiding hidden).reads :=
  within_target.mpr ⟨h, fun _ _ _ _ => trivial⟩

/-- Binding a name to what does not lead to the hidden mapping keeps it out of sight. -/
theorem maintains_bind_ready {name : String} {value : Value}
    (hvalue : value.Within (Scope.hiding hidden).reads) :
    Maintains (Ready hidden before) (fun _ => True) (Action.bind name value) := by
  intro s hs
  refine ⟨rfl, ?_⟩
  unfold Action.bind Binder.set
  by_cases hname : s.binder.contains name = true
  · simp only [hname, if_true]
    exact ⟨trivial, { hs with binds := hs.binds.rebind fun _ => hvalue }⟩
  · simp only [hname]
    exact hs

/-- The opening of a run keeps the mapping that is to be hidden out of sight. -/
theorem openingKeeps_ready :
    OpeningKeeps e (Scope.hiding hidden).reads
      (fun t => t.toValue.Within (Scope.hiding hidden).reads) (Ready hidden before) where
  select _ _ _ hs := maintains_bind_ready (within_selector.mpr hs)
  target _ _ _ ht := maintains_bind_ready ht
  before s b hs hget := by
    have hb := hs.binds _ _ hget (by decide)
    refine ⟨fun t ht => ?_, fun σ t ht => ?_⟩
    · rw [← toValue_of_ofValue? ht]
      exact hb
    · exact within_toValue (Resolver.compile_within (Resolver.compile_of_compileTarget ht) hb)
  tags _ _ _ hs := { hs with closed := fun p hp => hs.closed p hp }

/-- A copy that is made before keeps the hidden mapping out of sight. -/
theorem copyMapping_ready {s : Session} (hs : Ready hidden (before + 1) s) {v : Value}
    (hv : v.Within (Scope.hiding hidden).reads) :
    match Action.ofEval v.copyMapping s with
    | .ok w t => w.Within (Scope.hiding hidden).reads ∧ Ready hidden before t
    | .error _ t => Ready hidden (before + 1) t := by
  rw [Action.ofEval, copyMapping_eq]
  cases hcopied : v.copiedEntries s.store with
  | error fault => exact hs
  | ok entries =>
      have hsize := hs.size_eq
      refine ⟨within_mapping.mpr fun h => ?_, { hs with
        closed := hs.closed.addMapping fun _ => copiedEntries_within hs.closed hv hcopied
        size_eq := ?_ }⟩
      · cases h
        omega
      · simp only [Store.addMapping, Array.size_push]
        omega

/-- Binding different auxiliary descriptions makes a difference in the hidden mapping only. -/
theorem ends_bindSubclasses {s : Session} (hs : Ready hidden 0 s) {v v' : Value} (hv : v.IsTable)
    (hv' : v'.IsTable) :
    (sessionFrame (Scope.hiding hidden) (BindsHiding hidden)).Ends
      ((Action.ofEval v.copyMapping >>= Action.bind "$subclasses") s)
      ((Action.ofEval v'.copyMapping >>= Action.bind "$subclasses") s) := by
  have hcopy {v : Value} (hv : v.IsTable) : Action.ofEval v.copyMapping s
      = .ok (.mapping s.store.mappings.size)
        { s with store := (s.store.addMapping (v.tableEntries s.store)).2 } := by
    rw [Action.ofEval, copyMapping_eq, copiedEntries_table hv]
  have hout : Place.mapping s.store.mappings.size ∉ (Scope.hiding hidden).reads := by
    have hsize := hs.size_eq
    rw [Nat.add_zero] at hsize
    simp [Scope.hiding, hsize]
  rw [bind_of_ok (hcopy hv), bind_of_ok (hcopy hv')]
  refine (Action.local_bind fun b hb => hb.rebind fun h => absurd (by decide) h).ends ?_
  exact hs.sees.withStore (hs.sees.store.addMapping hout _ _)

/-- Binding the relation and the descriptions, the auxiliary ones different, makes a difference in
the hidden mapping only. -/
theorem ends_bindShared {s : Session} (hs : Ready hidden 1 s) {relation classes : Value}
    (hrelation : relation.Within (Scope.hiding hidden).reads)
    (hclasses : classes.Within (Scope.hiding hidden).reads) {v v' : Value} (hv : v.IsTable)
    (hv' : v'.IsTable) :
    (sessionFrame (Scope.hiding hidden) (BindsHiding hidden)).Ends
      (bindShared relation classes v s) (bindShared relation classes v' s) := by
  unfold bindShared
  refine ends_of_maintains (maintains_bind_ready hrelation) (fun _ ht => ht.sees) hs fun _ t _ ht => ?_
  refine ends_after (P := fun w u => w.Within (Scope.hiding hidden).reads ∧ Ready hidden 0 u) ?_
    fun w u hu => ?_
  · have hcopied := copyMapping_ready ht hclasses
    cases hresult : Action.ofEval classes.copyMapping t with
    | ok w u =>
        rw [hresult] at hcopied
        exact hcopied
    | error fault u =>
        rw [hresult] at hcopied
        exact hcopied.sees
  · exact ends_of_maintains (maintains_bind_ready hu.1) (fun _ ht => ht.sees) hu.2 fun _ _ _ ht =>
      ends_bindSubclasses ht hv hv'

/-- A script that does not ask for auxiliary descriptions is run as it is without any. -/
theorem execute_withoutSubclasses {p : Program} (hp : p.AsksNoSubclasses) (classes subclasses : Value) :
    execute (programJob p) classes subclasses = execute (programJob p) classes .null := by
  have hjob (env : Environment) : programJob p env = programJob p env.withoutSubclasses := by
    rw [programJob, programJob, ← Program.run_withoutSubclasses hp]
  unfold execute
  congr 1
  funext s
  rw [hjob, hjob (Environment.make s.store s.binder classes .null)]
  rfl

/-- Running such a script with other auxiliary descriptions is alike. -/
theorem alike_execute {p : Program} (hp : p.AsksNoSubclasses) {classes : Value}
    (hclasses : classes.Within (Scope.hiding hidden).reads) (v v' : Value) :
    (sessionFrame (Scope.hiding hidden) (BindsHiding hidden)).Alike
      (execute (programJob p) classes v) (execute (programJob p) classes v') fun _ => True := by
  rw [execute_withoutSubclasses hp, execute_withoutSubclasses hp classes v']
  exact local_execute hclasses within_null fun env hbinds hclasses _ =>
    local_programJob_hiding hp hbinds hclasses

/-- Hooks that miss what is hidden leave the handling of items to what may be looked at. -/
theorem HooksMiss.itemsAreLocal {records : List Record} (he : HooksMiss e hidden records)
    (hrecords : RecordsWithin (Scope.hiding hidden) records) :
    ItemsAreLocal (Scope.hiding hidden) (BindsHiding hidden) e records where
  within := hrecords
  before := he.before
  after := he.after
  bindItem _ record hrecord hb := hb.rebind fun _ => hrecords record hrecord
  bindContext _ _ hb hv := hb.rebind fun _ => hv

/-- Preparing a script that does not ask for auxiliary descriptions, and carrying it out, ends the
same with others. -/
theorem ends_carryOut (hengine : e.engine = scriptEngine) {records : List Record}
    (he : HooksMiss e hidden records) (hrecords : RecordsWithin (Scope.hiding hidden) records) (full : Bool)
    {key : Selector} {relation : Value} {result : Target} {script classes : Value}
    (hkey : key.Within (Scope.hiding hidden).reads)
    (hrelation : relation.Within (Scope.hiding hidden).reads)
    (hresult : result.toValue.Within (Scope.hiding hidden).reads)
    (hscript : script.Within (Scope.hiding hidden).reads) (hasks : AsksNoSubclasses script)
    (hclasses : classes.Within (Scope.hiding hidden).reads) (v v' : Value) {s s' : Session}
    (hs : s.Sees (Scope.hiding hidden) (BindsHiding hidden) s') :
    (sessionFrame (Scope.hiding hidden) (BindsHiding hidden)).Ends
      ((e.prepare script >>= fun job =>
        e.carryOut records full ⟨key, relation, result, job, classes, v⟩) s)
      ((e.prepare script >>= fun job =>
        e.carryOut records full ⟨key, relation, result, job, classes, v'⟩) s') := by
  suffices h : (sessionFrame (Scope.hiding hidden) (BindsHiding hidden)).Alike
      (e.prepare script >>= fun job =>
        e.carryOut records full ⟨key, relation, result, job, classes, v⟩)
      (e.prepare script >>= fun job =>
        e.carryOut records full ⟨key, relation, result, job, classes, v'⟩) fun _ => True from h.ends hs
  refine (local_prepare hengine hscript).bind fun job hjob => ?_
  obtain ⟨text, program, htext, hprogram, rfl⟩ := hjob
  exact alike_carryOut (p := ⟨key, relation, result, programJob program, classes, v⟩)
    (followsScope_self _ _) (he.itemsAreLocal hrecords)
    ⟨hkey, hrelation, (within_target.mp hresult).1⟩
    (alike_execute (hasks text program htext hprogram) hclasses v v') full

/-- Other auxiliary descriptions make a difference in the last steps only. -/
theorem Run.steps_withSubclasses (e : Evaluator) (r : Run) (v : Value) :
    (r.withSubclasses v).plan e >>= e.carryOut (r.withSubclasses v).records (r.withSubclasses v).isFull
      = r.opening e >>= fun opened =>
        Action.ofEval (relationOr opened.1 r.relation) >>= fun relation =>
          bindShared relation r.classes v >>= fun _ =>
            e.prepare r.script >>= fun job => e.carryOut r.records r.isFull
              ⟨opened.1, relation, opened.2, job, r.classes, v⟩ := by
  rw [Run.steps_eq]
  cases r <;> rfl

/-- The steps of two runs that differ in the auxiliary descriptions end the same. -/
theorem Run.ends_withSubclasses (hengine : e.engine = scriptEngine) {r : Run}
    (he : HooksMiss e hidden r.records) (hasks : AsksNoSubclasses r.script)
    (hgiven : ∀ v ∈ r.given, v.Within (Scope.hiding hidden).reads) {s : Session}
    (hs : Ready hidden 1 s) {v v' : Value} (hv : v.IsTable) (hv' : v'.IsTable) :
    (sessionFrame (Scope.hiding hidden) (BindsHiding hidden)).Ends
      (((r.withSubclasses v).plan e >>=
        e.carryOut (r.withSubclasses v).records (r.withSubclasses v).isFull) s)
      (((r.withSubclasses v').plan e >>=
        e.carryOut (r.withSubclasses v').records (r.withSubclasses v').isFull) s) := by
  simp only [Run.given, List.forall_mem_append, List.forall_mem_cons, List.forall_mem_map] at hgiven
  obtain ⟨⟨⟨hrecords, hselectors⟩, htargets⟩, hrelation, hscript, hclasses, -⟩ := hgiven
  rw [Run.steps_withSubclasses, Run.steps_withSubclasses]
  have hkeeps : OpeningKeeps e (Scope.hiding hidden).reads
      (fun t => t.toValue.Within (Scope.hiding hidden).reads) (Ready hidden 1) := openingKeeps_ready
  have hopening := hkeeps.opening hselectors fun v hv σ t ht =>
    within_toValue (Resolver.compile_within (Resolver.compile_of_compileTarget ht) (htargets v hv))
  refine ends_of_maintains hopening (fun _ ht => ht.sees) hs fun opened t hopened ht => ?_
  refine ends_of_maintains (hkeeps.relationOr hopened.1 hrelation) (fun _ ht => ht.sees) ht
    fun relation t hrelation ht => ?_
  refine (ends_bindShared ht hrelation hclasses hv hv').bind fun _ t t' ht => ?_
  exact ends_carryOut hengine he hrecords r.isFull hopened.1 hrelation hopened.2 hscript hasks hclasses
    v v' ht

/-- Steps that end the same leave runs that ended the same. -/
theorem endSameBut_settle {steps steps' : Action (String × Nat)} {s : Session}
    (h : (sessionFrame (Scope.hiding hidden) (BindsHiding hidden)).Ends
      (steps { s with classification := .empty }) (steps' { s with classification := .empty })) :
    EndSameBut hidden (settle steps s) (settle steps' s) := by
  -- stores that are seen alike differ at the hidden mapping only
  have hstores {σ σ' : Store} (hσ : (Scope.hiding hidden).Sees σ σ') :
      (∀ address, address ≠ hidden → σ.entries address = σ'.entries address) ∧
        ∀ address, σ.object address = σ'.object address := by
    refine ⟨fun address haddress => (hσ.entries_eq address ?_).symm,
      fun address => (hσ.object_eq address ?_).symm⟩
    · simp [Scope.hiding, haddress]
    · simp [Scope.hiding]
  unfold settle
  cases hsteps : steps { s with classification := .empty } with
  | ok answer t =>
      cases hsteps' : steps' { s with classification := .empty } with
      | ok answer' t' =>
          rw [hsteps, hsteps'] at h
          obtain ⟨rfl, ht⟩ := h
          exact ⟨rfl, ht.classification_eq.symm, ht.description_eq.symm, (hstores ht.store).1,
            (hstores ht.store).2⟩
      | error fault t' => simp [StateFrame.Ends, hsteps, hsteps'] at h
  | error fault t =>
      cases hsteps' : steps' { s with classification := .empty } with
      | ok answer' t' => simp [StateFrame.Ends, hsteps, hsteps'] at h
      | error fault' t' =>
          rw [hsteps, hsteps'] at h
          obtain ⟨rfl, ht⟩ := h
          exact ⟨rfl, rfl, rfl, (hstores ht.store).1, (hstores ht.store).2⟩

/-- Two runs that differ in their auxiliary descriptions only, of a script that asks for none, end the
same: with the same outcome and report, the same buckets, and the same contents of all values but the
copy of the descriptions that each run makes for itself. -/
theorem subclasses_stay_hidden (hengine : e.engine = scriptEngine) {s : Session} (hs : s.IsSound)
    {r : Run} (he : HooksMiss e (s.store.mappings.size + 1) r.records)
    (hgiven : ∀ v ∈ r.given, v.Within s.store.all) (hasks : AsksNoSubclasses r.script) {v v' : Value}
    (hv : v.IsTable) (hv' : v'.IsTable) :
    EndSameBut (s.store.mappings.size + 1) ((r.withSubclasses v).perform e s)
      ((r.withSubclasses v').perform e s) := by
  -- the copy of the auxiliary descriptions is made after that of the descriptions
  have hplaces : s.store.all.places
      ⊆ (Scope.hiding (s.store.mappings.size + 1)).reads.places := by
    rintro p hp rfl
    exact absurd (show s.store.mappings.size + 1 < s.store.mappings.size from hp) (by omega)
  have hready : Ready (s.store.mappings.size + 1) 1 { s with classification := .empty } :=
    ⟨hs.closed.of_all hplaces rfl, rfl,
      fun name b hget _ => (hs.binds name b hget (by simp)).mono hplaces fun _ _ => trivial,
      hs.programs_sound⟩
  rw [Run.perform_eq, Run.perform_eq]
  exact endSameBut_settle (Run.ends_withSubclasses hengine he hasks
    (fun v hv => (hgiven v hv).mono hplaces fun _ _ => trivial) hready hv hv')

/-- Descriptions that say what two auxiliary tables do not agree on. -/
def describedStore : Store :=
  ⟨#[[(.str "k", .int 1), (.str "grade", .null)], [(.str "low", .str "below the mean")],
    [(.str "low", .str "poor")], [(.str "low", .str "to be repeated"), (.str "high", .str "passed")]],
    #[], 0, ⟨0, none, 0⟩⟩

/-- A simplified run that describes its label and does not ask for auxiliary descriptions. -/
def describedRun : Run :=
  .simple [.mapping 0] ⟨.str "k", .null, .str "SET $result = DESCRIBE(\"low\")\n", .mapping 1, .null,
    .str "grade"⟩

/-- With either of two auxiliary tables, a script that looks up a description only ends alike. -/
theorem subclasses_stay_hidden_described : ∃ new, grader.start describedStore = .ok new ∧
    EndSameBut 5 ((describedRun.withSubclasses (.mapping 2)).perform grader new)
      ((describedRun.withSubclasses (.mapping 3)).perform grader new) := by
  obtain ⟨new, hnew⟩ := start_grader describedStore
  have hstore : new.store = describedStore := by
    obtain ⟨b, -, rfl⟩ := eq_of_start hnew
    rfl
  have hclosed : describedStore.Closed describedStore.all := by
    rintro (address | address) hp v hv
    · have haddress : address = 0 ∨ address = 1 ∨ address = 2 ∨ address = 3 := by
        have hless : address < 4 := hp
        omega
      rcases haddress with rfl | rfl | rfl | rfl <;> revert v <;>
        simp [describedStore, Store.contents, Store.entries]
    · exact absurd hp (Nat.not_lt_zero _)
  -- the hooks write the one record, which is not the copy of the descriptions
  have hhooks : HooksMiss grader (new.store.mappings.size + 1) describedRun.records := by
    refine ⟨fun _ _ _ _ => Action.local_ofEval (local_pure trivial), fun item hitem _ _ => ?_⟩
    refine Action.local_ofEval (local_writePath ?_ (fun _ _ _ _ => trivial) (within_bool true))
    rw [List.mem_singleton.mp hitem, hstore]
    exact within_mapping.mpr (by simp [Scope.hiding, describedStore])
  have hgiven : ∀ v ∈ describedRun.given, v.Within new.store.all := by
    rw [hstore]
    simp [describedRun, Run.given, Run.records, Run.selectors, Run.targets, Run.relation, Run.script,
      Run.classes, Record.numbered, Store.all, describedStore]
  have hasks : AsksNoSubclasses describedRun.script := by
    rintro text program ⟨rfl⟩ hprogram
    have hparts : (compileText true "SET $result = DESCRIBE(\"low\")\n").map
        (fun p => (p.mentions, p.calledFunctions)) = .ok (["$result", "DESCRIBE"], ["DESCRIBE"]) := by
      decide +kernel
    rw [hprogram] at hparts
    simp only [Except.map, Except.ok.injEq, Prod.mk.injEq] at hparts
    refine ⟨?_, ?_⟩
    · rw [hparts.1]
      decide
    · rw [hparts.2]
      decide
  have hsame : EndSameBut (new.store.mappings.size + 1)
      ((describedRun.withSubclasses (.mapping 2)).perform grader new)
      ((describedRun.withSubclasses (.mapping 3)).perform grader new) :=
    subclasses_stay_hidden rfl (isSound_of_start hnew hclosed) hhooks hgiven hasks trivial trivial
  rw [hstore] at hsame
  exact ⟨new, hnew, hsame⟩

end

end Evaluator

end Rubric
