import Rubric.Proofs.Evaluator.Descriptions
import Rubric.Proofs.Evaluator.Reordering
import Rubric.Proofs.Evaluator.UpFront

/-!
# Runs over reordered records

Without hooks, and with a script that keeps to its item, the items of different keys do not get at one
another.  So a run over the reordered records, where records of one key keep their order, succeeds where
the run over the records does, and comes to the same.

* `KeepsToItems` : scripts that keep to their item;
* `Planning` : sessions that the preparation of a run leads to;
* `Run.KeepsApart`, `Run.KeepsApart.isolated` : runs whose items are isolated once the plan is prepared;
* `reordered_runs_agree` : such runs over reordered records.
-/

namespace Rubric

open Rubric.Script
open Value (Place)
open Value

namespace Evaluator

/-! ## What is bound and called -/

/-- Whether a value is a field that reads and writes one of some attributes. -/
def IsFieldOf (fields : List String) (v : Value) : Prop :=
  ∃ text text', ∃ name ∈ fields, v = .target (.path text [name]) (some (.path text' [name]))

section

variable {e : Evaluator} {b : Binder} {name : String} {binding : Binding}

namespace Table

/-- The kind of a name that is bound. -/
theorem kind_mem (h : e.Table b) (hget : b.get? name = some binding) :
    (name, binding.kind) ∈ e.fields.map (·, BindingKind.selector) ++ reservedBindings := by
  rw [← h.kinds, ← Binder.name_of_get? hget]
  exact List.mem_map.mpr ⟨binding, List.mem_of_find?_eq_some hget, rfl⟩

/-- Two names are bound as fields. -/
theorem eq_of_kind_target (h : e.Table b) (hget : b.get? name = some binding)
    (hkind : binding.kind = .target) : name = "$result" ∨ name = "$obs" := by
  have hmem := h.kind_mem hget
  rw [hkind] at hmem
  simpa [reservedBindings] using hmem

end Table

/-- Whether a script sets no field of a value and calls built-in functions, attributes of the records and
the relation only. -/
structure KeepsToItems (e : Evaluator) (p : Program) : Prop where
  sets : ∀ s ∈ p.allStatements, s.fieldOwner? = none
  calls : ∀ function ∈ p.calledFunctions,
    (Builtin.ofName? function).isSome ∨ function ∈ e.fields ∨ function = "$pkAll"

/-- The name of a built-in function is no variable. -/
theorem isVariableName_of_builtin {function : String} (h : (Builtin.ofName? function).isSome) :
    isVariableName function = false := by
  by_contra hvariable
  simp only [isVariableName, Bool.not_eq_false, String.startsWith_string_iff] at hvariable
  obtain ⟨rest, hrest⟩ := hvariable
  obtain ⟨builtin, hbuiltin⟩ := Option.isSome_iff_exists.mp h
  have hname := List.find?_some hbuiltin
  have hnames : ∀ b ∈ Builtin.all, b.name.toList.head? ≠ some '$' := by decide
  refine hnames builtin (List.mem_of_find?_eq_some hbuiltin) ?_
  rw [eq_of_beq hname, ← hrest, String.toList_ofList]
  rfl

/-- What such a script calls writes nothing. -/
theorem KeepsToItems.callsQuietly {p : Program} (hp : e.KeepsToItems p) (h : e.Table b)
    (hrelation : ∀ binding, b.get? "$pkAll" = some binding → ∀ s, binding.value ≠ .setter s)
    {function : String} (hfunction : function ∈ p.calledFunctions) :
    function ∉ itemNames ∧ Environment.CallsQuietly ⟨b, .null, .null⟩ function := by
  have hbuiltins : ∀ name ∈ reservedBindings.map Prod.fst, (Builtin.ofName? name).isSome = false := by
    decide
  have hreserved : ∀ name ∈ "$pkAll" :: itemNames, name ∈ reservedBindings.map Prod.fst := by decide
  have hcalls := hp.calls function hfunction
  refine ⟨fun hname => ?_, ?_⟩
  · have hmem := hreserved function (List.mem_cons_of_mem _ hname)
    rcases hcalls with hbuiltin | hfield | rfl
    · rw [hbuiltins function hmem] at hbuiltin
      cases hbuiltin
    · exact h.not_mem_fields hmem hfield
    · exact absurd hname (by decide)
  · unfold Environment.CallsQuietly
    by_cases hfield : function ∈ e.fields
    · obtain ⟨s, -, hbound⟩ := h.field hfield
      rw [hbound]
      exact ⟨by simp, by simp⟩
    · rcases hcalls with hbuiltin | hfield' | rfl
      · cases hget : b.get? function with
        | none => exact isVariableName_of_builtin hbuiltin
        | some binding =>
            -- a bound name that is no attribute is reserved, and no built-in function has such a name
            rcases List.mem_append.mp (h.kind_mem hget) with hmem | hmem
            · obtain ⟨field, hmem, heq⟩ := List.mem_map.mp hmem
              have hsame : field = function := congrArg Prod.fst heq
              exact absurd (hsame ▸ hmem) hfield
            · rw [hbuiltins function (List.mem_map.mpr ⟨_, hmem, rfl⟩)] at hbuiltin
              cases hbuiltin
      · exact absurd hfield' hfield
      · obtain ⟨binding, hget, -⟩ := h.reserved "$pkAll" (by decide)
        rw [hget]
        refine ⟨fun hkind => ?_, hrelation binding hget⟩
        have hname := h.eq_of_kind_target hget hkind
        exact absurd hname (by decide)

end

/-! ## What a run goes by -/

/-- The values that a run goes by, its records aside: what it is asked for, and what is bound, but for the
names of an item. -/
def Run.background (r : Run) (s : Session) : List Value :=
  r.selectors ++ r.targets ++ [r.classes, r.subclasses] ++
    (s.binder.bindings.filter fun binding => binding.name ∉ itemNames).map Binding.value

/-- The region that all items of a run share: what is reached from what the run goes by, and places yet
to come. -/
def Run.shared (r : Run) (s : Session) : Region where
  places := {place | s.store.Reaches (r.background s) (.place place) ∨ place ∉ s.store.all}
  written := Set.univ

section

variable {r : Run} {s : Session}

/-- This region is closed. -/
theorem Run.closed_shared (r : Run) (s : Session) : s.store.Closed (r.shared s) := by
  rintro place (hreach | hout) v hv m hm
  · cases m with
    | written name => trivial
    | place other => exact .inl (.content hreach hv hm)
  · rw [Store.contents_of_notMem_all hout] at hv
    cases hv

/-- What a run goes by is within it. -/
theorem Run.within_shared {v : Value} (hv : v ∈ r.background s) : v.Within (r.shared s) := by
  intro m hm
  cases m with
  | written name => trivial
  | place place => exact .inl (.root hv hm)

end

/-- Whether a session is one that the preparation of a run leads to: the store has grown at most, and what
is bound is what its name stands for, within a region, and one of some fields where it is a target. -/
structure Planning (e : Evaluator) (fields : List String) (shared : Region) (σ : Store) (s : Session) :
    Prop where
  grown : σ.GrownTo s.store
  closed : s.store.Closed shared
  table : e.Table s.binder
  binds : s.binder.WithinBut itemNames shared
  targets : ∀ name ∈ targetNames, ∀ binding, s.binder.get? name = some binding →
    binding.value = .null ∨ IsFieldOf fields binding.value
  programs_sound : CacheIsSound s.programs

section

variable {e : Evaluator} {fields : List String} {shared : Region} {σ : Store} {s t : Session}

/-- Binding a reserved name to what suits it goes on. -/
theorem Planning.rebind (h : Planning e fields shared σ s) {name : String} {value : Value}
    (hname : name ∈ reservedBindings.map Prod.fst) (hsuits : Suits name value)
    (hwithin : value.Within shared) (hfield : name ∈ targetNames → IsFieldOf fields value) :
    Planning e fields shared σ { s with binder := s.binder.rebind name value none } where
  grown := h.grown
  closed := h.closed
  table := h.table.rebind hname hsuits
  binds := h.binds.rebind fun _ => hwithin
  targets other hother binding hget := by
    rw [Binder.get?_rebind] at hget
    obtain ⟨old, hold, rfl⟩ := Option.map_eq_some_iff.mp hget
    split
    · rename_i heq
      exact .inr (hfield (heq ▸ hother))
    · exact h.targets other hother old hold
  programs_sound := h.programs_sound

/-- So does binding it as a step of the run. -/
theorem maintains_bind_planning {name : String} {value : Value}
    (hname : name ∈ reservedBindings.map Prod.fst) (hsuits : Suits name value)
    (hwithin : value.Within shared) (hfield : name ∈ targetNames → IsFieldOf fields value) :
    Maintains (Planning e fields shared σ) (fun _ => True) (Action.bind name value) := by
  refine maintains_of_keeps fun s hs => ?_
  cases hresult : Action.bind name value s with
  | ok u t =>
      obtain ⟨-, rfl⟩ := Action.eq_of_bind hresult
      exact hs.rebind hname hsuits hwithin hfield
  | error fault t =>
      rw [Action.eq_of_bind_error hresult]
      exact hs

/-- A field is within every region with all attributes. -/
theorem IsFieldOf.within {v : Value} (h : IsFieldOf fields v) (hwritten : shared.written = Set.univ) :
    v.Within shared := by
  obtain ⟨text, text', name, -, rfl⟩ := h
  refine within_target.mpr ⟨Selector.within_path _ _, ?_⟩
  rintro assign ⟨rfl⟩
  exact Setter.within_path.mpr fun _ _ => hwritten ▸ Set.mem_univ _

/-- The opening of a run goes on. -/
theorem openingKeeps_planning (hwritten : shared.written = Set.univ) :
    OpeningKeeps e shared (fun t => IsFieldOf fields t.toValue) (Planning e fields shared σ) where
  select name hname selector hselector := by
    have hnames : ∀ name ∈ selectorNames, name ∈ reservedBindings.map Prod.fst ∧
        name ∉ targetNames := by decide
    obtain ⟨hreserved, htarget⟩ := hnames name hname
    exact maintains_bind_planning hreserved (suits_selector hname selector)
      (within_selector.mpr hselector) fun h => absurd h htarget
  target name hname t ht := by
    have hnames : ∀ name ∈ targetNames, name ∈ reservedBindings.map Prod.fst := by decide
    exact maintains_bind_planning (hnames name hname) (suits_target hname t) (ht.within hwritten)
      fun _ => ht
  before s binding hs hget := by
    rcases hs.targets "resultKey" (by decide) binding hget with hnull | ⟨text, text', name, hname, hvalue⟩
    · rw [hnull]
      exact ⟨fun _ h => (by cases h), fun σ t h => by simp [compileTarget_null] at h⟩
    · have htarget : binding.value
          = (⟨.path text [name], some (.path text' [name])⟩ : Target).toValue := hvalue
      rw [htarget]
      refine ⟨fun t' h => ?_, fun σ t' h => by simp [compileTarget_target] at h⟩
      cases h
      exact ⟨text, text', name, hname, rfl⟩
  tags _ _ _ hs := { hs with grown := hs.grown.tags _ _, closed := hs.closed }

/-- Copying a mapping goes on, where new places are in the region. -/
theorem Planning.copyMapping (h : Planning e fields shared σ s)
    (hnew : ∀ place, place ∉ σ.all → place ∈ shared) {v w : Value} (hv : v.Within shared)
    (hok : Action.ofEval v.copyMapping s = .ok w t) :
    w.Within shared ∧ t.binder = s.binder ∧ Planning e fields shared σ t := by
  obtain ⟨τ, hτ, rfl⟩ := Action.ofEval_ok hok
  rw [copyMapping_eq] at hτ
  cases hentries : v.copiedEntries s.store with
  | error fault => simp [hentries] at hτ
  | ok entries =>
      simp only [hentries] at hτ
      cases hτ
      have hplace : Place.mapping s.store.mappings.size ∉ σ.all := fun hmem =>
        absurd hmem (Nat.not_lt.mpr h.grown.size_le)
      exact ⟨within_mapping.mpr (hnew _ hplace), rfl, { h with
        grown := h.grown.addMapping entries
        closed := h.closed.addMapping fun _ => copiedEntries_within h.closed hv hentries }⟩

/-- So does binding the relation and the descriptions, and the relation stays bound. -/
theorem Planning.bindShared (h : Planning e fields shared σ s)
    (hnew : ∀ place, place ∉ σ.all → place ∈ shared) {relation classes subclasses : Value}
    (hrelation : relation.Within shared) (hclasses : classes.Within shared)
    (hsubclasses : subclasses.Within shared) {u : Unit}
    (hok : bindShared relation classes subclasses s = .ok u t) :
    Planning e fields shared σ t ∧
      ∀ binding, t.binder.get? "$pkAll" = some binding → binding.value = relation := by
  unfold Evaluator.bindShared at hok
  obtain ⟨_, s₁, hpkAll, hok⟩ := bind_ok.mp hok
  obtain ⟨copy, s₂, hcopy, hok⟩ := bind_ok.mp hok
  obtain ⟨_, s₃, hbind, hok⟩ := bind_ok.mp hok
  obtain ⟨copy', s₄, hcopy', hbind'⟩ := bind_ok.mp hok
  have hmapping {name : String} (hname : name ∈ ["$classes", "$subclasses"]) {v w : Value}
      {s t : Session} (hok : Action.ofEval v.copyMapping s = .ok w t) : Suits name w := by
    obtain ⟨τ, hτ, -⟩ := Action.ofEval_ok hok
    exact suits_copyMapping hname v _ _ _ hτ
  have hsuits : Suits "$pkAll" relation :=
    ⟨fun h => absurd h (by decide), fun h => absurd h (by decide), fun h => absurd h (by decide),
      fun h => absurd h (by decide)⟩
  obtain ⟨-, rfl⟩ := Action.eq_of_bind hpkAll
  have h₁ := h.rebind (by decide) hsuits hrelation fun h => absurd h (by decide)
  obtain ⟨hwithin, hb₂, h₂⟩ := h₁.copyMapping hnew hclasses hcopy
  obtain ⟨-, rfl⟩ := Action.eq_of_bind hbind
  have h₃ : Planning e fields shared σ { s₂ with binder := s₂.binder.rebind "$classes" copy none } :=
    h₂.rebind (by decide) (hmapping (by decide) hcopy) hwithin fun h => absurd h (by decide)
  obtain ⟨hwithin', hb₄, h₄⟩ := h₃.copyMapping hnew hsubclasses hcopy'
  obtain ⟨-, rfl⟩ := Action.eq_of_bind hbind'
  refine ⟨h₄.rebind (by decide) (hmapping (by decide) hcopy') hwithin' fun h => absurd h (by decide),
    fun binding hget => ?_⟩
  simp only [hb₄, hb₂, Binder.get?_rebind, Option.map_eq_some_iff] at hget
  obtain ⟨_, ⟨_, ⟨old, -, rfl⟩, rfl⟩, rfl⟩ := hget
  rfl

/-- A plan that is made in such a session, for a script that keeps to its item and the relation of having
the same key, looks at nothing but what is in the region. -/
theorem Planning.plansPlainly (h : Planning e fields shared σ s) (hwritten : shared.written = Set.univ)
    {program : Program} (hscript : e.KeepsToItems program)
    (hpkAll : ∀ binding, s.binder.get? "$pkAll" = some binding → ∀ setter, binding.value ≠ .setter setter)
    {result : Target} (hresult : IsFieldOf fields result.toValue) {classes subclasses : Value}
    (hclasses : classes.Within shared) (hsubclasses : subclasses.Within shared) (key : Selector)
    (tag : Tag) :
    PlansPlainly fields shared
      ⟨key, .function tag (.sameKey key), result, programJob program, classes, subclasses⟩ s.binder where
  written := hwritten
  binds := h.binds
  items name hname := by
    have hnames : ∀ name ∈ itemNames, name ∈ reservedBindings.map Prod.fst ∧ name ≠ "$result" ∧
        name ≠ "$obs" := by decide
    obtain ⟨hreserved, hresult, hobs⟩ := hnames name hname
    obtain ⟨binding, hget, -⟩ := h.table.reserved name hreserved
    exact ⟨binding, hget, fun hkind => (h.table.eq_of_kind_target hget hkind).elim hresult hobs⟩
  targets name binding hget hkind := by
    have hname : name ∈ targetNames := by
      rcases h.table.eq_of_kind_target hget hkind with rfl | rfl <;> decide
    refine (h.targets name hname binding hget).imp_right ?_
    rintro ⟨text, text', field, hfield, hvalue⟩
    exact ⟨field, hfield, by simp [boundField?, hkind, hvalue]⟩
  pkAll := hpkAll
  relation := ⟨tag, rfl⟩
  result := by
    obtain ⟨text, text', name, -, hvalue⟩ := hresult
    rw [(Value.target.inj hvalue).1]
    exact Selector.within_path _ _
  classes := hclasses
  subclasses := hsubclasses
  job := ⟨program, rfl, hscript.sets, fun _ hfunction => hscript.callsQuietly h.table hpkAll hfunction⟩

end

/-! ## Runs that keep items apart -/

/-- Records that share nothing still share nothing. -/
theorem shareNothing_of_grown {σ τ : Store} (h : σ.GrownTo τ) (hclosed : σ.Closed σ.all)
    {r r' : Record} (hr : r.value.Within σ.all) (hr' : r'.value.Within σ.all)
    (hshare : ShareNothing σ r r') : ShareNothing τ r r' := fun place hboth =>
  hshare place ⟨reaches_of_grown h hclosed hr hboth.1, reaches_of_grown h hclosed hr' hboth.2⟩

/-- Whether the items of a run get at one another by nothing but their keys: the relation is that of having
the same key, the script keeps to its item, the targets are some attributes that the key does not read, and
the records share no places with one another and are not reached from what the run goes by. -/
structure Run.KeepsApart (r : Run) (e : Evaluator) (fields : List String) (s : Session) : Prop where
  relation : r.relation = .null
  script : ∀ text program, r.script = .str text → compileText true text = .ok program →
    e.KeepsToItems program
  targets : ∀ v ∈ r.targets, ∀ σ t, e.resolver.compileTarget σ v = .ok t → IsFieldOf fields t.toValue
  bound : ∀ name ∈ targetNames, ∀ binding, s.binder.get? name = some binding →
    binding.value = .null ∨ IsFieldOf fields binding.value
  key : ∀ σ key, e.resolver.compileKey σ r.itemKey = .ok key → ∀ record ∈ r.records,
    key.Misses s.store (fieldWrites fields r.records) record.value
  within : ∀ record ∈ r.records, record.value.Within s.store.all
  disjoint : r.records.Pairwise (ShareNothing s.store)
  hidden : ∀ record ∈ r.records, ∀ place, record.value.place? = some place →
    ¬ s.store.Reaches (r.background s) (.place place)

section

variable {e : Evaluator} {fields : List String} {r : Run} {s t : Session} {p : Plan}

/-- A session of an evaluator is one that its preparation begins with. -/
theorem Run.KeepsApart.planning (hr : r.KeepsApart e fields s) (htable : e.HasTable s)
    (hprograms : CacheIsSound s.programs) :
    Planning e fields (r.shared s) s.store { s with classification := .empty } where
  grown := .refl _
  closed := r.closed_shared s
  table := htable
  binds name binding hget hname := by
    refine Run.within_shared (List.mem_append_right _ (List.mem_map.mpr ⟨binding, ?_, rfl⟩))
    refine List.mem_filter.mpr ⟨List.mem_of_find?_eq_some hget, ?_⟩
    simpa [Binder.name_of_get? hget] using hname
  targets := hr.bound
  programs_sound := hprograms

/-- What a compiled expression was compiled to. -/
theorem compiled_ok {α : Type} {compile : Resolver → Store → Value → Except Fault α} {expression : Value}
    {a : α} (h : e.compiled compile expression s = .ok a t) :
    compile e.resolver s.store expression = .ok a := by
  cases hcompiled : compile e.resolver s.store expression with
  | ok b =>
      rw [compiled_of_ok hcompiled] at h
      cases h
      rfl
  | error fault =>
      rw [compiled_of_error hcompiled] at h
      cases h

/-- The key that the opening of a run answers is the compiled item key. -/
theorem Run.key_of_opening {opened : Selector × Target} (h : r.opening e s = .ok opened t) :
    e.resolver.compileKey s.store r.itemKey = .ok opened.1 := by
  cases r with
  | full values request =>
      obtain ⟨key, s₁, hkey, h⟩ := bind_ok.mp h
      obtain ⟨result, s₂, -, h⟩ := bind_ok.mp h
      obtain ⟨obs, s₃, -, h⟩ := bind_ok.mp h
      obtain ⟨_, s₄, -, h⟩ := bind_ok.mp h
      obtain ⟨_, s₅, -, h⟩ := bind_ok.mp h
      obtain ⟨_, s₆, -, h⟩ := bind_ok.mp h
      obtain ⟨_, s₇, -, h⟩ := bind_ok.mp h
      obtain ⟨_, s₈, -, h⟩ := bind_ok.mp h
      obtain ⟨_, s₉, -, h⟩ := bind_ok.mp h
      obtain ⟨_, t₁, -, h⟩ := bind_ok.mp h
      obtain ⟨_, t₂, -, h⟩ := bind_ok.mp h
      cases h
      exact compiled_ok hkey
  | simple values request =>
      obtain ⟨key, s₁, hkey, h⟩ := bind_ok.mp h
      obtain ⟨result, s₂, -, h⟩ := bind_ok.mp h
      obtain ⟨_, s₃, -, h⟩ := bind_ok.mp h
      obtain ⟨_, s₄, -, h⟩ := bind_ok.mp h
      cases h
      exact compiled_ok hkey

/-- Without a relation, items are related by their key. -/
theorem relationOr_null (key : Selector) (σ : Store) :
    ∃ tag τ, relationOr key .null σ = .ok (.function tag (.sameKey key)) τ := ⟨_, _, rfl⟩

/-- What is prepared for a script that runs by its text. -/
theorem prepare_ok (hengine : e.engine = scriptEngine) (hprograms : CacheIsSound s.programs)
    {script : Value} {job : Environment → Eval Unit} (h : e.prepare script s = .ok job t) :
    (∃ text program, script = .str text ∧ compileText true text = .ok program ∧
      job = programJob program) ∧
    t.store = s.store ∧ t.binder = s.binder ∧ t.classification = s.classification := by
  rw [prepare_eq, hengine, scriptEngine_eq] at h
  obtain ⟨hcompiled, -⟩ := compileCached_sound hprograms s.store script
  cases hcached : compileCached s.store true s.programs script with
  | error fault => simp [hcached] at h
  | ok prepared =>
      simp only [hcached, EStateM.Result.ok.injEq] at h
      rw [hcached] at hcompiled
      obtain ⟨text, htext, hprogram⟩ := compileText_of_compile hcompiled.symm
      obtain ⟨rfl, rfl⟩ := h
      exact ⟨⟨text, prepared.1, htext, hprogram, rfl⟩, rfl, rfl, rfl⟩

/-- Once the plan of such a run is prepared, its records are isolated. -/
theorem Run.KeepsApart.isolated (hr : r.KeepsApart e fields s)
    (hengine : e.engine = scriptEngine) (htable : e.HasTable s) (hclosed : s.store.Closed s.store.all)
    (hprograms : CacheIsSound s.programs)
    (hplan : r.plan e { s with classification := .empty } = .ok p t) :
    Isolated fields (r.shared s) p t.binder r.records t.store := by
  have hnew : ∀ place, place ∉ s.store.all → place ∈ r.shared s := fun _ h => .inr h
  have hgiven {v : Value} (hv : v ∈ r.selectors ++ r.targets ++ [r.classes, r.subclasses]) :
      v.Within (r.shared s) := Run.within_shared (List.mem_append_left _ hv)
  have hclasses : r.classes.Within (r.shared s) := hgiven (by simp)
  have hsubclasses : r.subclasses.Within (r.shared s) := hgiven (by simp)
  rw [Run.plan_eq] at hplan
  obtain ⟨opened, t₁, hopened, hplan⟩ := bind_ok.mp hplan
  obtain ⟨relation, t₂, hrelated, hplan⟩ := bind_ok.mp hplan
  obtain ⟨_, t₃, hbound, hplan⟩ := bind_ok.mp hplan
  obtain ⟨job, t₄, hprepared, hpure⟩ := bind_ok.mp hplan
  cases hpure
  have hkeeps : OpeningKeeps e (r.shared s) (fun t => IsFieldOf fields t.toValue)
      (Planning e fields (r.shared s) s.store) := openingKeeps_planning rfl
  obtain ⟨⟨hkey, hresult⟩, h₁⟩ := (hkeeps.opening (fun v hv => hgiven (by simp [hv])) hr.targets).of_ok
    (hr.planning htable hprograms) hopened
  obtain ⟨hrelation, h₂⟩ := (hkeeps.relationOr hkey (hr.relation ▸ within_null)).of_ok h₁ hrelated
  obtain ⟨h₃, hpkAll⟩ := h₂.bindShared hnew hrelation hclasses hsubclasses hbound
  obtain ⟨⟨text, program, htext, hprogram, rfl⟩, hstore, hbinder, -⟩ :=
    prepare_ok hengine h₃.programs_sound hprepared
  obtain ⟨tag, rfl⟩ : ∃ tag, relation = .function tag (.sameKey opened.1) := by
    obtain ⟨τ, hτ, -⟩ := Action.ofEval_ok hrelated
    obtain ⟨tag, τ', hnull⟩ := relationOr_null opened.1 t₁.store
    rw [hr.relation, hnull] at hτ
    cases hτ
    exact ⟨tag, rfl⟩
  have hrecords : ∀ record ∈ r.records, record.value.Within s.store.all := hr.within
  have hnoSetter : ∀ binding, t₃.binder.get? "$pkAll" = some binding → ∀ setter,
      binding.value ≠ .setter setter := by
    intro binding hget setter
    rw [hpkAll binding hget]
    simp
  rw [hstore, hbinder]
  -- the store has only grown since the run began, so what the run was given to go by still holds
  exact {
    plain := h₃.plansPlainly rfl (hr.script text program htext hprogram) hnoSetter hresult hclasses
      hsubclasses opened.1 tag
    closed := h₃.closed
    keys := fun record hrecord => Selector.misses_of_grown h₃.grown hclosed (hrecords record hrecord)
      (hr.key _ _ (Run.key_of_opening hopened) record hrecord)
    hidden := fun record hrecord place hplace => by
      rintro (hreach | hout)
      · exact hr.hidden record hrecord place hplace hreach
      · exact hout ((hrecords record hrecord).place hplace)
    disjoint := hr.disjoint.imp_of_mem fun hrecord hrecord' hshare =>
      shareNothing_of_grown h₃.grown hclosed (hrecords _ hrecord) (hrecords _ hrecord') hshare }

/-- The outcome of a run over other records than its own, and the session after it. -/
def Run.performOn (e : Evaluator) (records : List Record) : Run → Session → Outcome × Session
  | full _ request => e.run records request
  | simple _ request => e.runSimple records request

/-- A run over other records prepares the same plan and carries it out over these. -/
theorem Run.performOn_eq (e : Evaluator) (records : List Record) (r : Run) (s : Session) :
    r.performOn e records s = settle (r.plan e >>= e.carryOut records r.isFull) s := by
  cases r with
  | full values request => rw [performOn, run, fullRun_eq]; rfl
  | simple values request => rw [performOn, runSimple, simpleRun_eq]; rfl

/-- Whether two records of a run are linked by keys that are not told apart once the plan is prepared.
Where the keys are plain, these are the records of one key. -/
def Run.Links (r : Run) (e : Evaluator) (s : Session) (a b : Record) : Prop :=
  ∃ p t, r.plan e { s with classification := .empty } = .ok p t ∧ p.Links t.store r.records a b

/-- What is linked once a plan is prepared. -/
theorem Run.links_eq (hplan : r.plan e { s with classification := .empty } = .ok p t) :
    r.Links e s = p.Links t.store r.records := by
  funext a b
  refine propext ⟨?_, fun h => ⟨p, t, hplan, h⟩⟩
  rintro ⟨p', t', hplan', h⟩
  rw [hplan] at hplan'
  cases hplan'
  exact h

/-- Take a run without hooks and a relation, whose script keeps to its item, over records that share no
places, and any reordering of these that keeps the order of records of one key.  The run over the reordered
records succeeds exactly where the run succeeds.  Then it leaves the same contents of every value, and the
same records under every label, so as many. -/
theorem reordered_runs_agree (hengine : e.engine = scriptEngine) (hbefore : e.before = Hook.none)
    (hafter : e.after = Hook.none) (htable : e.HasTable s) (hs : s.IsSound)
    (hr : r.KeepsApart e fields s) {second : List Record}
    (hkeeps : KeepsOrder (r.Links e s) r.records second) :
    ((r.performOn e second s).1.isSuccess = true ↔ (r.perform e s).1.isSuccess = true) ∧
      ((r.perform e s).1.isSuccess = true →
        SameResults (r.perform e s).2 (r.performOn e second s).2) := by
  rw [Run.performOn_eq, Run.perform_eq, settle, settle]
  cases hplan : r.plan e { s with classification := .empty } with
  | error fault t =>
      rw [bind_of_error hplan, bind_of_error hplan]
      exact ⟨Iff.rfl, fun h => by cases h⟩
  | ok p t =>
      have hisolated := hr.isolated hengine htable hs.closed hs.programs_sound hplan
      have hempty : t.classification = .empty := (r.keepsTallies_plan e _ _ _ hplan).1
      have hself : t.binder.SameBut itemNames t.binder := .refl _ _
      rw [Run.links_eq hplan] at hkeeps
      -- the records are a reordering of the reordered ones, too
      have hback : KeepsOrder (p.Links t.store second) second r.records := by
        rw [Plan.Links, linked_congr hkeeps.perm]
        exact hkeeps.symm
      rw [bind_of_ok hplan, bind_of_ok hplan]
      cases hfirst : e.carryOut r.records r.isFull p t with
      | ok answer t' =>
          obtain ⟨answer', t'', hsecond, hsame⟩ :=
            hisolated.carryOut_reordered hbefore hafter hself hempty hkeeps hfirst
          rw [hsecond]
          exact ⟨Iff.rfl, fun _ => hsame⟩
      | error fault t' =>
          cases hsecond : e.carryOut second r.isFull p t with
          | ok answer t'' =>
              obtain ⟨_, _, hok, -⟩ := (hisolated.perm hkeeps.perm).carryOut_reordered hbefore hafter
                hself hempty hback hsecond
              rw [hok] at hfirst
              cases hfirst
          | error fault' t'' => exact ⟨Iff.rfl, fun h => by cases h⟩

end

/-- Three records without a grade, of which the first and the last have one key. -/
def keyedStore : Store :=
  ⟨#[[(.str "k", .str "a"), (.str "grade", .null)], [(.str "k", .str "b"), (.str "grade", .null)],
    [(.str "k", .str "a"), (.str "grade", .null)]], #[], 0, ⟨0, none, 0⟩⟩

/-- The session of an evaluator with these. -/
def keyedSession : Session :=
  match describer.start keyedStore with
  | .ok s => s
  | .error _ => ⟨keyedStore, .empty, .empty, "", [], []⟩

/-- A run that grades every record by how many have its key. -/
def countingRun : Run :=
  .simple [.mapping 0, .mapping 1, .mapping 2] ⟨.selector (.path "k" ["k"]), .null,
    .str "SET $result = COUNT($ctxC)\n", .null, .null, .selector (.path "grade" ["grade"])⟩

/-- That evaluator can be made. -/
theorem start_keyed : describer.start keyedStore = .ok keyedSession := by rfl

/-- No value in this store mentions a place. -/
theorem contents_keyed (place : Place) : ∀ v ∈ keyedStore.contents place, v.Within ⟨∅, Set.univ⟩ := by
  rcases place with address | address
  · rcases address with _ | _ | _ | address <;> simp [keyedStore, Store.contents, Store.entries]
  · have hout : Place.object address ∉ keyedStore.all := Nat.not_lt_zero address
    simp [Store.contents_of_notMem_all hout]

/-- So what is reached from some values is mentioned by one of them. -/
theorem mentioned_of_reaches_keyed {roots : List Value} {place : Place}
    (h : keyedStore.Reaches roots (.place place)) : ∃ v ∈ roots, .place place ∈ v.mentions := by
  cases h with
  | root hv hm => exact ⟨_, hv, hm⟩
  | content _ hv hm => exact absurd (contents_keyed _ _ hv _ hm) (Set.notMem_empty place)

/-- The records of that run. -/
theorem mem_counting {record : Record} (h : record ∈ countingRun.records) :
    record = ⟨0, .mapping 0⟩ ∨ record = ⟨1, .mapping 1⟩ ∨ record = ⟨2, .mapping 2⟩ := by
  simpa [countingRun, Run.records, Record.numbered] using h

/-- What that run goes by mentions no place. -/
theorem background_counting {v : Value} (hv : v ∈ countingRun.background keyedSession) :
    v.Within ⟨∅, Set.univ⟩ := by
  rcases List.mem_append.mp hv with hgiven | hbound
  · simp [countingRun, Run.selectors, Run.targets, Run.classes, Run.subclasses] at hgiven
    rcases hgiven with rfl | rfl | rfl <;> simp
  · obtain ⟨binding, hbinding, rfl⟩ := List.mem_map.mp hbound
    have hbindings : keyedSession.binder.bindings.map Binding.value
        = List.replicate keyedSession.binder.bindings.length .null := by rfl
    have hmem := List.mem_map_of_mem (f := Binding.value) (List.mem_filter.mp hbinding).1
    rw [hbindings] at hmem
    rw [List.eq_of_mem_replicate hmem]
    exact within_null

/-- The items of that run are kept apart. -/
theorem keepsApart_counting : countingRun.KeepsApart describer ["grade"] keyedSession where
  relation := rfl
  script text program htext hprogram := by
    cases htext
    -- the script is compiled once, for what it sets and calls
    have hparts : (compileText true "SET $result = COUNT($ctxC)\n").map
        (fun p => (p.allStatements.map Stmt.fieldOwner?, p.calledFunctions)) = .ok ([none], ["COUNT"]) := by
      decide +kernel
    rw [hprogram] at hparts
    simp only [Except.map, Except.ok.injEq, Prod.mk.injEq] at hparts
    obtain ⟨howners, hcalls⟩ := hparts
    refine ⟨fun s hs => ?_, fun function hfunction => .inl ?_⟩
    · have howner : s.fieldOwner? ∈ program.allStatements.map Stmt.fieldOwner? := List.mem_map_of_mem hs
      rwa [howners, List.mem_singleton] at howner
    · rw [hcalls, List.mem_singleton] at hfunction
      rw [hfunction]
      decide
  targets v hv σ t ht := by
    rw [List.mem_singleton.mp hv, compileTarget_path] at ht
    cases ht
    exact ⟨_, _, "grade", by simp, rfl⟩
  bound name hname binding hget := by
    -- nothing is bound in a new session but the attributes
    obtain ⟨b, hb, hsession⟩ := eq_of_start start_keyed
    rw [hsession] at hget
    rcases binding_of_initialBinder hb hget with ⟨_, -, -, hnull⟩ | ⟨hfree, -⟩
    · exact .inl hnull
    · have hreserved : ∀ name ∈ targetNames, name ∈ reservedBindings.map Prod.fst := by decide
      exact absurd (hreserved name hname) hfree
  key σ key hkey record hrecord := by
    have hkey' : describer.resolver.compileKey σ (.selector (.path "k" ["k"])) = .ok key := hkey
    rw [compileKey_selector] at hkey'
    cases hkey'
    -- the key reads another attribute than the grades are written to, and the texts it finds mention no place
    refine ⟨fun place _ => ?_, fun w hw place hreach => ?_⟩
    · unfold fieldWrites
      split <;> decide
    · obtain ⟨v, hv, hm⟩ := mentioned_of_reaches_keyed hreach
      rw [List.mem_singleton.mp hv] at hm
      have htext : ∃ text, w = .str text := by
        rcases mem_counting hrecord with rfl | rfl | rfl <;> cases hw <;> exact ⟨_, rfl⟩
      obtain ⟨text, rfl⟩ := htext
      cases hm
  within record hrecord := by
    have hsize : keyedSession.store.mappings.size = 3 := by rfl
    rcases mem_counting hrecord with rfl | rfl | rfl <;> simp [Store.all, hsize]
  disjoint := by
    have hapart : ∀ {i j a b : Nat}, a ≠ b →
        ShareNothing keyedSession.store ⟨i, .mapping a⟩ ⟨j, .mapping b⟩ := by
      rintro i j a b hne place ⟨hreach, hreach'⟩
      obtain ⟨v, hv, hm⟩ := mentioned_of_reaches_keyed hreach
      obtain ⟨v', hv', hm'⟩ := mentioned_of_reaches_keyed hreach'
      rw [List.mem_singleton.mp hv] at hm
      rw [List.mem_singleton.mp hv'] at hm'
      cases (List.mem_singleton.mp hm).symm.trans (List.mem_singleton.mp hm')
      exact hne rfl
    exact .cons (by simp [hapart]) (.cons (by simp [hapart]) (.cons (by simp) .nil))
  hidden record hrecord place hplace hreach := by
    obtain ⟨v, hv, hm⟩ := mentioned_of_reaches_keyed hreach
    exact background_counting hv _ hm

/-- The text that the key of a record is once the plan of that run is prepared. -/
def keyTextCounting (record : Record) : Option String :=
  match countingRun.plan describer { keyedSession with classification := .empty } with
  | .ok p t =>
    match p.keyOf record t.store with
    | .ok (.str text) _ => some text
    | _ => none
  | .error _ _ => none

/-- These are the texts that the records hold. -/
theorem keyText_counting : countingRun.records.map keyTextCounting = [some "a", some "b", some "a"] := by
  unfold keyTextCounting countingRun Run.plan simplePlan resultTarget bindResultKey compiled
  simp only [compileKey_selector, compileTarget_path]
  decide +kernel

/-- So the key of every record is the text that it holds. -/
theorem keyOf_counting {p : Plan} {t : Session}
    (hplan : countingRun.plan describer { keyedSession with classification := .empty } = .ok p t)
    {record : Record} (hrecord : record ∈ countingRun.records) :
    ∃ text τ, p.keyOf record t.store = .ok (.str text) τ ∧ keyTextCounting record = some text := by
  have hsome : keyTextCounting record ≠ none := by
    intro hnone
    have hmem := List.mem_map_of_mem (f := keyTextCounting) hrecord
    rw [keyText_counting, hnone] at hmem
    simp at hmem
  simp only [keyTextCounting, hplan] at hsome ⊢
  split at hsome
  · exact ⟨_, _, ‹_›, by simp [*]⟩
  · exact absurd rfl hsome

/-- The plan of that run can be prepared. -/
theorem exists_plan_counting :
    ∃ p t, countingRun.plan describer { keyedSession with classification := .empty } = .ok p t := by
  cases hplan : countingRun.plan describer { keyedSession with classification := .empty } with
  | ok p t => exact ⟨p, t, rfl⟩
  | error fault t =>
      have hnone : ∀ record, keyTextCounting record = none := fun record => by rw [keyTextCounting, hplan]
      have htexts := keyText_counting
      rw [List.map_congr_left fun record _ => hnone record] at htexts
      cases htexts

/-- Its records are linked by having one text as their key only. -/
theorem links_counting {a b : Record} (ha : a ∈ countingRun.records) (hb : b ∈ countingRun.records) :
    countingRun.Links describer keyedSession a b ↔ keyTextCounting a = keyTextCounting b := by
  obtain ⟨p, t, hplan⟩ := exists_plan_counting
  -- the keys are texts, so they are compared by their plain forms
  have hplain : ∀ record ∈ countingRun.records, ∀ k τ, p.keyOf record t.store = .ok k τ →
      ∃ form, k.plainForm? = some form := by
    intro record hrecord k τ hk
    obtain ⟨text, τ', hkey, -⟩ := keyOf_counting hplan hrecord
    rw [hk] at hkey
    cases hkey
    exact ⟨_, rfl⟩
  obtain ⟨text, τ, hka, hta⟩ := keyOf_counting hplan ha
  obtain ⟨text', τ', hkb, htb⟩ := keyOf_counting hplan hb
  rw [Run.links_eq hplan, Plan.Links, linked_iff_of_plain hplain, hta, htb]
  constructor
  · rintro (rfl | ⟨-, -, form, hform, hform'⟩)
    · exact hta.symm.trans htb
    · simp only [plainKey?, hka, hkb, plainForm?] at hform hform'
      cases hform
      cases hform'
      rfl
  · intro h
    cases h
    exact .inr ⟨ha, hb, .str text, by rw [plainKey?, hka]; rfl, by rw [plainKey?, hkb]; rfl⟩

/-- The reordering that puts the second record first keeps the order of the other two. -/
theorem keepsOrder_counting : KeepsOrder (countingRun.Links describer keyedSession) countingRun.records
    [⟨1, .mapping 1⟩, ⟨0, .mapping 0⟩, ⟨2, .mapping 2⟩] := by
  classical
  have hperm : List.Perm [⟨1, .mapping 1⟩, ⟨0, .mapping 0⟩, ⟨2, .mapping 2⟩] countingRun.records :=
    .swap _ _ _
  refine ⟨hperm, fun a ha => ?_⟩
  have htexts : keyTextCounting ⟨0, .mapping 0⟩ = some "a" ∧ keyTextCounting ⟨1, .mapping 1⟩ = some "b" ∧
      keyTextCounting ⟨2, .mapping 2⟩ = some "a" := by
    simpa [countingRun, Run.records, Record.numbered] using keyText_counting
  obtain ⟨hfirst, hsecond, hthird⟩ := htexts
  have hsame : ∀ b ∈ countingRun.records, decide (countingRun.Links describer keyedSession a b)
      = (keyTextCounting a == keyTextCounting b) := fun b hb => by
    rw [beq_eq_decide]
    exact decide_eq_decide.mpr (links_counting ha hb)
  rw [List.filter_congr hsame, List.filter_congr fun b hb => hsame b (hperm.mem_iff.mp hb)]
  rcases mem_counting ha with rfl | rfl | rfl <;>
    simp [countingRun, Run.records, Record.numbered, hfirst, hsecond, hthird]

/-- Over the records in that order, the run comes to the same. -/
theorem reordered_runs_agree_counting :
    let second : List Record := [⟨1, .mapping 1⟩, ⟨0, .mapping 0⟩, ⟨2, .mapping 2⟩]
    (countingRun.performOn describer second keyedSession).1.isSuccess = true ∧
      SameResults (countingRun.perform describer keyedSession).2
        (countingRun.performOn describer second keyedSession).2 := by
  have hsuccess : (countingRun.perform describer keyedSession).1.isSuccess = true := by
    unfold countingRun Run.perform runSimple simpleRun resultTarget bindResultKey compiled
    simp only [compileKey_selector, compileTarget_path]
    decide +kernel
  have hclosed : keyedStore.Closed keyedStore.all := fun place _ v hv =>
    (contents_keyed place v hv).mono (Set.empty_subset _) subset_rfl
  obtain ⟨hiff, hsame⟩ := reordered_runs_agree rfl rfl rfl (hasTable_of_start start_keyed)
    (isSound_of_start start_keyed hclosed) keepsApart_counting keepsOrder_counting
  exact ⟨hiff.mpr hsuccess, hsame hsuccess⟩

end Evaluator
end Rubric
