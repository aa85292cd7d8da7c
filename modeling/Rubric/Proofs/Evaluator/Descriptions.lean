import Rubric.Proofs.Evaluator.Moments
import Rubric.Proofs.Evaluator.Start
import Rubric.Proofs.Evaluator.Totals
import Rubric.Proofs.Value.Mapping

/-!
# Descriptions of labels during a run

`DESCRIBE` looks labels up in the map that the caller passed, and `$classes` is a copy of that map which
the run makes for itself.  Both say the same of every label as long as neither is written.  A script
that sets fields can write the copy; one that sets none, and does not get at a setter through the name
`resultKey`, writes single attributes of the items only.

* `Scope.keeping` : everything may be read, and all places written but some tables;
* `Program.WritesFieldsOnly` : scripts that write through `$result` and `$obs` only;
* `descriptions_stay` : at every moment of a run of such a script, `DESCRIBE`, `$classes` and the map of
  the caller say of every label what the map said before the run;
* `descriptions_differ` : a script that sets a field of `$classes` tells them apart.
-/

namespace Rubric

open Rubric.Script
open Value (Place)
open Value Eval StateFrame

/-! ## Values that write nothing -/

/-- All places, and no attributes that setters write. -/
def Region.passive : Region := ⟨Set.univ, ∅⟩

/-- The places that a store has, and no attributes that setters write. -/
def Store.passive (σ : Store) : Region := ⟨σ.all.places, ∅⟩

/-- What belongs to the places of a store writes nothing anywhere. -/
theorem Value.Within.of_store {σ : Store} {v : Value} (hv : v.Within σ.passive) :
    v.Within .passive := hv.mono (fun _ _ => trivial) fun _ h => h

/-! ## Tables that are kept -/

/-- Whether a value is at none of the places of some tables. -/
def Value.Apart (tables : List Value) (v : Value) : Prop :=
  ∀ p, v.place? = some p → ∀ table ∈ tables, table.place? ≠ some p

/-- Everything may be read, and all places written but some tables. -/
def Scope.keeping (tables : List Value) : Scope where
  reads := .passive
  mayWrite p _ := ∀ table ∈ tables, table.place? ≠ some p
  rewrites σ τ := ∀ table ∈ tables, table.tableEntries τ = table.tableEntries σ
  setters_may _ hname := hname.elim
  refl _ _ _ := rfl
  trans h h' table htable := (h' table htable).trans (h table htable)
  withTag _ _ _ _ := rfl
  setEntries σ address name entries _ hmay _ table htable := by
    cases table with
    | mapping other =>
        have hother : other ≠ address := by
          rintro rfl
          exact hmay _ htable rfl
        simp [tableEntries, Store.entries_setEntries_eq, hother]
    | _ => rfl
  setAttributes _ _ _ _ _ _ _ _ table _ := by cases table <;> rfl

/-! ## Bound fields -/

/-- Whether a value is a field that reads and writes a single attribute. -/
def Value.IsField (v : Value) : Prop :=
  ∃ text text' name, v = .target (.path text [name]) (some (.path text' [name]))

/-- Whether a target is a single attribute, or cannot be written through at all. -/
def Target.IsSimple (region : Region) (t : Target) : Prop :=
  t.toValue.Within region ∨ t.toValue.IsField

/-- A simple target reads what is within the region. -/
theorem Target.IsSimple.selector {region : Region} {t : Target} (ht : t.IsSimple region) :
    t.selector.Within region := by
  rcases ht with hwithin | ⟨text, text', name, hfield⟩
  · exact (within_target.mp hwithin).1
  · rw [(Value.target.inj hfield).1]
    exact Selector.within_path _ _

/-- The binding of a field stands for its attribute. -/
theorem boundField?_of_isField {b : Binding} (hkind : b.kind = .target) (h : b.value.IsField) :
    ∃ name, boundField? b = some name := by
  obtain ⟨text, text', name, hvalue⟩ := h
  exact ⟨name, by simp [boundField?, hkind, hvalue]⟩

/-- Whether bindings hold values within a region, the names of targets aside, and simple targets for
these. -/
structure Binder.BindsFields (region : Region) (b : Binder) : Prop where
  values : ∀ name binding, b.get? name = some binding → name ∉ Evaluator.targetNames →
    binding.value.Within region
  fields : ∀ name binding, b.get? name = some binding → name = "$result" ∨ name = "$obs" →
    binding.kind = .target ∧ (binding.value.Within region ∨ binding.value.IsField)
  result : ∀ binding, b.get? "resultKey" = some binding →
    binding.value = .null ∨ ∃ t : Target, t.IsSimple region ∧ binding.value = t.toValue

namespace Binder.BindsFields

variable {region : Region} {b : Binder}

/-- Binding a name to a value within the region. -/
theorem rebind (h : b.BindsFields region) {name : String} (hname : name ∉ Evaluator.targetNames)
    {value : Value} (hvalue : value.Within region) :
    (b.rebind name value none).BindsFields region := by
  have hother {other : String} (hother : other ∈ Evaluator.targetNames) {binding : Binding}
      (hget : (b.rebind name value none).get? other = some binding) : b.get? other = some binding := by
    have hne : other ≠ name := fun heq => hname (heq ▸ hother)
    simpa [Binder.get?_rebind, hne] using hget
  refine ⟨fun other binding hget hnot => ?_, fun other binding hget hfield => ?_, fun binding hget => ?_⟩
  · rw [Binder.get?_rebind] at hget
    obtain ⟨old, hold, rfl⟩ := Option.map_eq_some_iff.mp hget
    split
    · exact hvalue
    · exact h.values other old hold hnot
  · have hmem : other ∈ Evaluator.targetNames := by
      rcases hfield with rfl | rfl <;> decide
    exact h.fields other binding (hother hmem hget) hfield
  · exact h.result binding (hother (by decide) hget)

/-- Binding the name of a target to a simple one. -/
theorem rebindTarget (h : b.BindsFields region) {name : String} (hname : name ∈ Evaluator.targetNames)
    {t : Target} (ht : t.IsSimple region) : (b.rebind name t.toValue none).BindsFields region := by
  refine ⟨fun other binding hget hnot => ?_, fun other binding hget hfield => ?_, fun binding hget => ?_⟩
  · have hne : other ≠ name := fun heq => hnot (heq ▸ hname)
    exact h.values other binding (by simpa [Binder.get?_rebind, hne] using hget) hnot
  · rw [Binder.get?_rebind] at hget
    obtain ⟨old, hold, rfl⟩ := Option.map_eq_some_iff.mp hget
    obtain ⟨hkind, hvalue⟩ := h.fields other old hold hfield
    split
    · exact ⟨hkind, ht⟩
    · exact ⟨hkind, hvalue⟩
  · rw [Binder.get?_rebind] at hget
    obtain ⟨old, hold, rfl⟩ := Option.map_eq_some_iff.mp hget
    split
    · exact .inr ⟨t, ht, rfl⟩
    · exact h.result old hold

end Binder.BindsFields

/-- Whether bindings hold simple targets and values that write nothing, and the item is apart from some
tables. -/
structure BindsApart (tables : List Value) (b : Binder) : Prop where
  fields : b.BindsFields .passive
  item : ∀ binding, b.get? "$ctxI" = some binding → binding.value.Apart tables

/-- Binding a name to a value that writes nothing, and to one apart from the tables if it is the name of
the item. -/
theorem BindsApart.rebind {tables : List Value} {b : Binder} (h : BindsApart tables b) {name : String}
    (hname : name ∉ Evaluator.targetNames) {value : Value} (hvalue : value.Within .passive)
    (hitem : name = "$ctxI" → value.Apart tables) : BindsApart tables (b.rebind name value none) where
  fields := h.fields.rebind hname hvalue
  item binding hget := by
    rw [Binder.get?_rebind] at hget
    obtain ⟨old, hold, rfl⟩ := Option.map_eq_some_iff.mp hget
    split
    · rename_i heq
      exact hitem heq.symm
    · exact h.item old hold

/-- Binding the name of a target to a simple one. -/
theorem BindsApart.rebindTarget {tables : List Value} {b : Binder} (h : BindsApart tables b)
    {name : String} (hname : name ∈ Evaluator.targetNames) {t : Target} (ht : t.IsSimple .passive) :
    BindsApart tables (b.rebind name t.toValue none) where
  fields := h.fields.rebindTarget hname ht
  item binding hget := by
    have hne : "$ctxI" ≠ name := by
      rintro rfl
      exact absurd hname (by decide)
    exact h.item binding (by simpa [Binder.get?_rebind, hne] using hget)

/-- Whether bindings are so, and a copy is bound to `$classes`. -/
structure BindsCopy (tables : List Value) (copy : Value) (b : Binder) : Prop where
  apart : BindsApart tables b
  shown : (b.get? "$classes").map Binding.value = some copy

/-- Binding another name leaves the copy bound. -/
theorem BindsCopy.rebind {tables : List Value} {copy : Value} {b : Binder} (h : BindsCopy tables copy b)
    {name : String} (hname : name ∉ Evaluator.targetNames) (hother : name ≠ "$classes") {value : Value}
    (hvalue : value.Within .passive) (hitem : name = "$ctxI" → value.Apart tables) :
    BindsCopy tables copy (b.rebind name value none) where
  apart := h.apart.rebind hname hvalue hitem
  shown := by
    rw [Binder.get?_rebind, Option.map_map]
    simpa [Function.comp_def, hother.symm] using h.shown

/-! ## Scripts that write fields only -/

namespace Script

/-- Whether a script sets no field of what a variable holds, and does not mention the name that shows
the setter of the result field. -/
structure Program.WritesFieldsOnly (p : Program) : Prop where
  setsNone : ∀ s ∈ p.allStatements, s.fieldOwner? = none
  unmentioned : "resultKey" ∉ p.mentions

/-- An environment with the value of the result field forgotten, which scripts do not mention. -/
def Environment.withoutResultKey (env : Environment) : Environment :=
  { env with binder := env.binder.blank ["resultKey"] }

section

variable {tables : List Value} {env : Environment} {name : String} {b : Binding}

/-- A binding of such an environment has lost its value or is as before. -/
theorem get?_withoutResultKey (hget : env.withoutResultKey.binder.get? name = some b) :
    b.value = .null ∨ name ≠ "resultKey" ∧ env.binder.get? name = some b := by
  rw [Environment.withoutResultKey, Binder.get?_blank] at hget
  obtain ⟨old, hold, rfl⟩ := Option.map_eq_some_iff.mp hget
  have hname := Binder.name_of_get? hold
  by_cases hresult : name = "resultKey"
  · exact .inl (by simp [Binding.blank, hname, hresult])
  · exact .inr ⟨hresult, by simpa [Binding.blank, hname, hresult] using hold⟩

/-- Its bindings hold values that write nothing, or single attributes. -/
theorem value_withoutResultKey (hbinds : BindsApart tables env.binder)
    (hget : env.withoutResultKey.binder.get? name = some b) :
    b.value.Within .passive ∨ b.kind = .target ∧ b.value.IsField := by
  rcases get?_withoutResultKey hget with hnull | ⟨hresult, hget⟩
  · exact .inl (hnull ▸ within_null)
  · by_cases hname : name ∈ Evaluator.targetNames
    · have hfield : name = "$result" ∨ name = "$obs" := by
        simpa [Evaluator.targetNames, hresult] using hname
      obtain ⟨hkind, hvalue⟩ := hbinds.fields.fields name b hget hfield
      exact hvalue.imp_right fun h => ⟨hkind, h⟩
    · exact .inl (hbinds.fields.values name b hget hname)

/-- Such an environment gives out what writes nothing, but for its bound fields. -/
theorem within_withoutResultKey (hbinds : BindsApart tables env.binder)
    (hclasses : env.classes.Within .passive) (hsubclasses : env.subclasses.Within .passive) :
    env.withoutResultKey.Within (Scope.keeping tables) := by
  have hnamed {name : String} (hname : name ∉ Evaluator.targetNames) :
      (env.withoutResultKey.valueOf name).Within .passive := by
    unfold Environment.valueOf
    cases hget : env.withoutResultKey.binder.get? name with
    | none => exact within_null
    | some b =>
        show b.value.Within .passive
        rcases get?_withoutResultKey hget with hnull | ⟨-, hget⟩
        · exact hnull ▸ within_null
        · exact hbinds.fields.values name b hget hname
  refine ⟨fun name b hget hkind => ?_, fun name b hget _ => ?_, hnamed (by decide),
    hnamed (by decide), hnamed (by decide), hclasses, hsubclasses⟩
  · exact (value_withoutResultKey hbinds hget).resolve_right fun h => hkind h.1
  · refine (value_withoutResultKey hbinds hget).imp_right fun ⟨_, text, text', field, hvalue⟩ => ?_
    exact ⟨_, _, hvalue, Selector.within_path _ _⟩

/-- Its bound fields write attributes of the item, which is apart from the tables. -/
theorem mayWrite_withoutResultKey (hbinds : BindsApart tables env.binder) :
    env.withoutResultKey.MayWrite (Scope.keeping tables) := by
  intro hitem name b hget hkind v hv
  rcases value_withoutResultKey hbinds hget with hwithin | ⟨-, hfield⟩
  · exact local_assignBound_within hitem hkind hwithin hv
  · obtain ⟨field, hfield⟩ := boundField?_of_isField hkind hfield
    refine local_assignBound_field hitem hfield (fun p hp => ?_) hv
    unfold Environment.item Environment.valueOf at hp
    cases hcurrent : env.withoutResultKey.binder.get? "$ctxI" with
    | none => simp [hcurrent, Value.place?] at hp
    | some current =>
        simp only [hcurrent, Option.map_some, Option.getD_some] at hp
        rcases get?_withoutResultKey hcurrent with hnull | ⟨-, hcurrent⟩
        · simp [hnull, Value.place?] at hp
        · exact hbinds.item current hcurrent p hp

/-- Such a script writes no place of the tables, in every environment that an evaluator runs it in. -/
theorem Program.WritesFieldsOnly.scriptWithin {p : Program} (hp : p.WritesFieldsOnly) {copy : Value} :
    Evaluator.ScriptWithin (Scope.keeping tables) (BindsCopy tables copy) ["resultKey"] p where
  unmentioned name hname := by
    rw [List.mem_singleton]
    exact fun h => hp.unmentioned (h ▸ hname)
  sets := setsWithin_of_fieldOwner? hp.setsNone
  environment env hbinds hclasses hsubclasses := by
    refine ⟨env.withoutResultKey, ⟨?_, rfl, rfl, by decide, by decide, by decide⟩,
      within_withoutResultKey hbinds.apart hclasses hsubclasses,
      mayWrite_withoutResultKey hbinds.apart⟩
    exact (Binder.blank_blank (List.Subset.refl _) env.binder).symm

end

end Script

/-! ## What a table says -/

/-- What a table says of a label, the empty text where it says nothing. -/
def Value.entryFor (σ : Store) (table : Value) (label : String) : Except Fault Value :=
  (lookup σ (.str label) (table.tableEntries σ)).map fun found => found.getD (.str "")

/-- Tables with the same entries say the same. -/
theorem Value.entryFor_congr {σ τ : Store} {table other : Value}
    (h : other.tableEntries τ = table.tableEntries σ) (label : String) :
    other.entryFor τ label = table.entryFor σ label := by
  rw [entryFor, entryFor, h, lookup_str σ τ]

/-- Whether, in an environment and at some contents, `DESCRIBE`, `$classes` and a map say of every label
what the map said at first. -/
structure DescribesAs (map : Value) (start : Store) (env : Environment) (σ : Store) : Prop where
  describe : ∀ label, Builtin.describe.call env [label] σ
    = Eval.ofExcept (map.entryFor start (label.label σ)) σ
  shown : ∀ label, (env.valueOf "$classes").entryFor σ label = map.entryFor start label
  caller : ∀ label, map.entryFor σ label = map.entryFor start label

/-- `DESCRIBE` says what the entries of the table say that the environment was made with. -/
theorem describe_call {map : Value} (hmap : map.IsTable) {start made σ : Store}
    (hmade : map.tableEntries made = map.tableEntries start)
    (hσ : map.tableEntries σ = map.tableEntries start) (binder : Binder) (subclasses label : Value) :
    Builtin.describe.call (.make made binder map subclasses) [label] σ
      = Eval.ofExcept (map.entryFor start (label.label σ)) σ := by
  rw [← Value.entryFor_congr hσ]
  show descriptionIn (if map.truthy made then map else .null) label (.str "") σ = _
  split
  · cases map with
    | null => rfl
    | mapping address =>
        show (Eval.ofExcept (lookup σ (.str (label.label σ)) (σ.entries address)) >>= fun found =>
          (return found.getD (.str "") : Eval Value)) σ = _
        unfold Value.entryFor tableEntries
        cases lookup σ (.str (label.label σ)) (σ.entries address) <;> rfl
    | _ => exact hmap.elim
  · -- an empty map is passed on as null, and stays empty
    rename_i hempty
    have hnone : map.tableEntries σ = [] := by
      rw [hσ, ← hmade]
      cases map with
      | null => rfl
      | mapping address => simpa [truthy, tableEntries] using hempty
      | _ => rfl
    rw [Value.entryFor, hnone]
    rfl

namespace Evaluator

/-! ## The start of a run -/

/-- Whether in a session nothing that can be reached writes anything, but for bound fields, before the
map of descriptions is copied. -/
structure BeforeCopy (map : Value) (copy : Nat) (given : List (Value × Value)) (s : Session) : Prop where
  closed : s.store.Closed .passive
  binds : BindsApart [map, .mapping copy] s.binder
  size_eq : s.store.mappings.size = copy
  entries_eq : map.tableEntries s.store = given
  programs_sound : CacheIsSound s.programs

section

variable {e : Evaluator} {map : Value} {copy : Nat} {given : List (Value × Value)}

/-- Binding a name keeps this where the bindings stay so. -/
theorem maintains_bind_beforeCopy {name : String} {value : Value}
    (h : ∀ b, BindsApart [map, .mapping copy] b →
      BindsApart [map, .mapping copy] (b.rebind name value none)) :
    Maintains (BeforeCopy map copy given) (fun _ => True) (Action.bind name value) := by
  refine maintains_of_keeps fun s hs => ?_
  cases hresult : Action.bind name value s with
  | ok u t =>
      obtain ⟨-, rfl⟩ := Action.eq_of_bind hresult
      exact { hs with binds := h _ hs.binds }
  | error fault t =>
      rw [Action.eq_of_bind_error hresult]
      exact hs

/-- A target does not compile. -/
theorem compileTarget_target (r : Resolver) (σ : Store) (t : Target) :
    r.compileTarget σ t.toValue
      = .error (.selector (.unsupportedExpression (t.toValue.shown σ))) := by
  rw [Resolver.compileTarget, Target.toValue, Resolver.compile]
  all_goals simp

/-- Null does not compile. -/
theorem compileTarget_null (r : Resolver) (σ : Store) :
    r.compileTarget σ .null
      = .error (.selector (.unsupportedExpression (Value.null.shown σ))) := by
  rw [Resolver.compileTarget, Resolver.compile]
  all_goals simp

/-- The opening of a run keeps this. -/
theorem openingKeeps_beforeCopy : OpeningKeeps e .passive (Target.IsSimple .passive)
    (BeforeCopy map copy given) where
  select name hname selector hselector := by
    have hnames : ∀ name ∈ selectorNames, name ∉ targetNames ∧ name ≠ "$ctxI" := by decide
    obtain ⟨htarget, hitem⟩ := hnames name hname
    exact maintains_bind_beforeCopy fun _ hb =>
      hb.rebind htarget (within_selector.mpr hselector) fun heq => absurd heq hitem
  target _ hname _ ht := maintains_bind_beforeCopy fun _ hb => hb.rebindTarget hname ht
  before s b hs hget := by
    rcases hs.binds.fields.result b hget with hnull | ⟨t, ht, hvalue⟩
    · rw [hnull]
      exact ⟨fun _ h => (by cases h), fun σ t h => by simp [compileTarget_null] at h⟩
    · rw [hvalue]
      refine ⟨fun t' h => ?_, fun σ t' h => by simp [compileTarget_target] at h⟩
      cases h
      exact ht
  tags _ _ _ hs := { hs with closed := hs.closed }

/-- A copy that is made in a place of its own leaves what earlier tables contain. -/
theorem tableEntries_addMapping {σ : Store} {table : Value}
    (h : ∀ address, table = .mapping address → address < σ.mappings.size)
    (entries : List (Value × Value)) :
    table.tableEntries (σ.addMapping entries).2 = table.tableEntries σ := by
  cases table with
  | mapping address =>
      have hne : address ≠ σ.mappings.size := (h address rfl).ne
      rw [tableEntries, Store.entries_addMapping, if_neg hne, tableEntries]
  | _ => rfl

/-- A name that is bound to a value is bound to it from then on. -/
theorem shown_of_rebind {b : Binder} {name : String} (h : b.contains name) (value : Value) :
    ((b.rebind name value none).get? name).map Binding.value = some value := by
  obtain ⟨binding, hget⟩ := Option.isSome_iff_exists.mp h
  simp [Binder.get?_rebind, hget]

/-- What binding the relation and the descriptions does, where it succeeds. -/
theorem eq_of_bindShared {s t : Session} (hmap : map.IsTable) {relation subclasses : Value} {u : Unit}
    (h : bindShared relation map subclasses s = .ok u t) :
    ∃ entries, subclasses.copiedEntries (s.store.addMapping (map.tableEntries s.store)).2 = .ok entries ∧
      s.binder.contains "$classes" ∧
      t = { s with
        store := ((s.store.addMapping (map.tableEntries s.store)).2.addMapping entries).2
        binder := ((s.binder.rebind "$pkAll" relation none).rebind "$classes"
          (.mapping s.store.mappings.size) none).rebind "$subclasses"
          (.mapping (s.store.mappings.size + 1)) none } := by
  unfold bindShared at h
  obtain ⟨_, s₁, hpkAll, h⟩ := bind_ok.mp h
  obtain ⟨-, rfl⟩ := Action.eq_of_bind hpkAll
  obtain ⟨copied, s₂, hcopy, h⟩ := bind_ok.mp h
  obtain ⟨σ, hσ, rfl⟩ := Action.ofEval_ok hcopy
  rw [copyMapping_eq, copiedEntries_table hmap] at hσ
  cases hσ
  obtain ⟨_, s₃, hbind, h⟩ := bind_ok.mp h
  obtain ⟨hcontains, rfl⟩ := Action.eq_of_bind hbind
  obtain ⟨copied', s₄, hcopy', h⟩ := bind_ok.mp h
  obtain ⟨τ, hτ, rfl⟩ := Action.ofEval_ok hcopy'
  obtain ⟨-, rfl⟩ := Action.eq_of_bind h
  rw [copyMapping_eq] at hτ
  cases hentries : subclasses.copiedEntries (s.store.addMapping (map.tableEntries s.store)).2 with
  | error fault => simp [hentries] at hτ
  | ok entries =>
      simp only [hentries] at hτ
      cases hτ
      refine ⟨entries, rfl, by simpa using hcontains, ?_⟩
      simp [Store.addMapping]

/-- Once the relation and the descriptions are bound, the map and its copy have the entries that the map
had before, and nothing that can be reached writes them. -/
theorem staysWithin_of_bindShared {s t : Session} (hs : BeforeCopy map copy given s)
    (hmap : map.IsTable) (hplace : ∀ address, map = .mapping address → address < copy)
    {relation subclasses : Value} (hrelation : relation.Within .passive)
    (hsubclasses : subclasses.Within .passive) {u : Unit}
    (h : bindShared relation map subclasses s = .ok u t) :
    ∃ start, (∀ table ∈ [map, .mapping copy], table.tableEntries start = given) ∧
      t.StaysWithin (Scope.keeping [map, .mapping copy])
        (BindsCopy [map, .mapping copy] (.mapping copy)) start := by
  obtain ⟨entries, hentries, hcontains, rfl⟩ := eq_of_bindShared hmap h
  have hmapping (address : Nat) : (Value.mapping address).Within .passive := within_mapping.mpr trivial
  have hmapWithin : map.Within .passive := by
    cases map with
    | null => exact within_null
    | mapping address => exact hmapping address
    | _ => exact hmap.elim
  have hsize := hs.size_eq
  have hclosed : (s.store.addMapping (map.tableEntries s.store)).2.Closed .passive :=
    hs.closed.addMapping fun _ =>
      copiedEntries_within hs.closed hmapWithin (copiedEntries_table hmap s.store)
  -- the store to start from is the one after the first copy: only then both tables have their entries
  refine ⟨(s.store.addMapping (map.tableEntries s.store)).2, fun table htable => ?_, ⟨?_, ?_⟩⟩
  · rw [List.mem_cons, List.mem_singleton] at htable
    rcases htable with rfl | rfl
    · rw [tableEntries_addMapping fun address heq => hsize ▸ hplace address heq, hs.entries_eq]
    · rw [tableEntries, Store.entries_addMapping, if_pos hsize.symm, hs.entries_eq]
  · refine ⟨.refl (hclosed.addMapping fun _ => copiedEntries_within hclosed hsubclasses hentries),
      ?_, rfl, rfl, rfl, rfl, hs.programs_sound⟩
    have hfirst : BindsApart [map, .mapping copy] (s.binder.rebind "$pkAll" relation none) :=
      hs.binds.rebind (by decide) hrelation fun heq => absurd heq (by decide)
    have hsecond : BindsApart [map, .mapping copy]
        ((s.binder.rebind "$pkAll" relation none).rebind "$classes" (.mapping copy) none) :=
      hfirst.rebind (by decide) (hmapping copy) fun heq => absurd heq (by decide)
    rw [hsize]
    exact BindsCopy.rebind ⟨hsecond, shown_of_rebind (by simpa using hcontains) _⟩ (by decide)
      (by decide) (hmapping _) fun heq => absurd heq (by decide)
  · -- the second copy is made after the first
    intro table htable
    refine tableEntries_addMapping (fun address heq => ?_) entries
    have hpush : (s.store.addMapping (map.tableEntries s.store)).2.mappings.size = copy + 1 := by
      simp [Store.addMapping, hsize]
    rw [hpush]
    rw [List.mem_cons, List.mem_singleton] at htable
    rcases htable with rfl | rfl
    · exact Nat.lt_succ_of_lt (hplace address heq)
    · cases heq
      exact Nat.lt_succ_self _

/-! ## The items -/

/-- Whether the hooks of an evaluator, for some records, write none of some tables and leave a copy
bound. -/
structure HooksKeep (e : Evaluator) (tables : List Value) (copy : Value) (records : List Record) :
    Prop where
  before : HookIsLocal (Scope.keeping tables) (BindsCopy tables copy) records e.before
  after : HookIsLocal (Scope.keeping tables) (BindsCopy tables copy) records e.after

/-- Handling the items writes none of the tables where the hooks do not and the records are apart. -/
theorem HooksKeep.itemsAreLocal {tables : List Value} {table : Value} {records : List Record}
    (he : HooksKeep e tables table records)
    (hrecords : ∀ record ∈ records, record.value.Within .passive ∧ record.value.Apart tables) :
    ItemsAreLocal (Scope.keeping tables) (BindsCopy tables table) e records where
  within record hrecord := (hrecords record hrecord).1
  before := he.before
  after := he.after
  bindItem _ record hrecord hb :=
    hb.rebind (by decide) (by decide) (hrecords record hrecord).1 fun _ => (hrecords record hrecord).2
  bindContext _ _ hb hv := hb.rebind (by decide) (by decide) hv fun heq => absurd heq (by decide)

/-- Where nothing was written to the map and its copy, both say what the map said at first. -/
theorem describesAs_of_staysWithin (hmap : map.IsTable) {origin start : Store}
    (hstart : ∀ table ∈ [map, .mapping copy], table.tableEntries start = map.tableEntries origin)
    {s : Session} (hs : s.StaysWithin (Scope.keeping [map, .mapping copy])
      (BindsCopy [map, .mapping copy] (.mapping copy)) start) {locals : Locals} {τ : Store}
    (hτ : Locals.StayWithin (Scope.keeping [map, .mapping copy]) start locals τ)
    (subclasses : Value) : DescribesAs map origin (.make s.store s.binder map subclasses) τ := by
  have hmem : map ∈ [map, .mapping copy] := List.mem_cons_self
  have hcopy : Value.mapping copy ∈ [map, .mapping copy] := List.mem_cons_of_mem _ List.mem_cons_self
  have hmapτ : map.tableEntries τ = map.tableEntries origin :=
    (hτ.rewrites map hmem).trans (hstart map hmem)
  refine ⟨fun label => ?_, fun label => ?_, fun label => Value.entryFor_congr hmapτ label⟩
  · exact describe_call hmap ((hs.rewrites map hmem).trans (hstart map hmem)) hmapτ _ _ _
  · have hshown : (Environment.make s.store s.binder map subclasses).valueOf "$classes"
        = .mapping copy := by
      show ((s.binder.get? "$classes").map Binding.value).getD .null = _
      rw [hs.sees.binds.shown]
      rfl
    rw [hshown]
    exact Value.entryFor_congr ((hτ.rewrites _ hcopy).trans (hstart _ hcopy)) label

end

/-! ## Runs -/

/-- Whether a script, if it can be compiled, writes bound fields only. -/
def WritesFieldsOnly (script : Value) : Prop :=
  ∀ text program, script = .str text → compileText true text = .ok program →
    program.WritesFieldsOnly

end Evaluator

/-- Whether nothing that can be reached in a session writes anything, its bound fields aside, which are
single attributes; whether it mentions no place that it does not have, and keeps right programs only. -/
structure Session.IsPassive (s : Session) : Prop where
  closed : s.store.Closed s.store.passive
  binds : s.binder.BindsFields s.store.passive
  programs_sound : CacheIsSound s.programs

namespace Evaluator

/-- Whether in a run nothing but the script can write the map of descriptions: the map is a table, it is
none of the records, the fields that are written are single attributes, no setter is handed over, and
the hooks leave the map and its copy alone. -/
structure Run.SparesClasses (e : Evaluator) (r : Run) (s : Session) : Prop where
  table : r.classes.IsTable
  given : ∀ v ∈ r.subclasses :: r.given, v.Within s.store.passive
  targets : ∀ v ∈ r.targets, ∀ σ t, e.resolver.compileTarget σ v = .ok t → t.IsSimple .passive
  records : ∀ record ∈ r.records, record.value.Apart [r.classes]
  current : ∀ b, s.binder.get? "$ctxI" = some b → b.value.Apart [r.classes]
  hooks : HooksKeep e [r.classes, .mapping s.store.mappings.size] (.mapping s.store.mappings.size)
    r.records

section

variable {e : Evaluator} {r : Run} {s : Session}

/-- A value of a store that is apart from the map is apart from the copy, too, which is yet to be made. -/
theorem apart_copy {σ : Store} {v map : Value} (hv : v.Within σ.passive) (h : v.Apart [map]) :
    v.Apart [map, .mapping σ.mappings.size] := by
  intro p hp table htable
  rw [List.mem_cons, List.mem_singleton] at htable
  rcases htable with rfl | rfl
  · exact h p hp _ List.mem_cons_self
  · rintro ⟨rfl⟩
    exact absurd (show σ.mappings.size < σ.mappings.size from hv.place hp) (Nat.lt_irrefl _)

/-- A run begins with bindings that write nothing but fields. -/
theorem beforeCopy_of_isPassive (hs : s.IsPassive) (hr : r.SparesClasses e s) :
    BeforeCopy r.classes s.store.mappings.size (r.classes.tableEntries s.store)
      { s with classification := .empty } where
  closed p _ v hv := by
    by_cases hp : p ∈ s.store.all
    · exact (hs.closed p hp v hv).of_store
    · rw [Store.contents_of_notMem_all hp] at hv
      cases hv
  binds := by
    have hmono {v : Value} (hv : v.Within s.store.passive) : v.Within .passive := hv.of_store
    refine ⟨⟨fun name b hget hname => hmono (hs.binds.values name b hget hname),
      fun name b hget hname => ?_, fun b hget => ?_⟩, fun b hget => ?_⟩
    · exact (hs.binds.fields name b hget hname).imp_right fun h => h.imp_left hmono
    · refine (hs.binds.result b hget).imp_right fun ⟨t, ht, hvalue⟩ => ⟨t, ht.imp_left hmono, hvalue⟩
    · exact apart_copy (hs.binds.values _ b hget (by decide)) (hr.current b hget)
  size_eq := rfl
  entries_eq := rfl
  programs_sound := hs.programs_sound

/-- Steps that do the same after the classification is emptied settle the same. -/
theorem settle_congr {steps steps' : Action (String × Nat)}
    (h : steps { s with classification := .empty } = steps' { s with classification := .empty }) :
    settle steps s = settle steps' s := by
  rw [settle, settle, h]

/-- Preparing a script that writes bound fields only and carrying it out does the same with a probe that
is idle at the moments at which the map and its copy say what the map said at first. -/
theorem carryOut_congr_withProbe (hengine : e.engine = scriptEngine) {map : Value} {copy : Nat}
    (hmap : map.IsTable) (hmapWithin : map.Within .passive) {records : List Record}
    (he : ItemsAreLocal (Scope.keeping [map, .mapping copy])
      (BindsCopy [map, .mapping copy] (.mapping copy)) e records)
    {key : Selector} {relation : Value} {result : Target} {script subclasses : Value}
    (hkey : key.Within .passive) (hrelation : relation.Within .passive)
    (hresult : result.selector.Within .passive) (hsubclasses : subclasses.Within .passive)
    (hscript : WritesFieldsOnly script) {origin start : Store}
    (hstart : ∀ table ∈ [map, .mapping copy], table.tableEntries start = map.tableEntries origin)
    {probe : Probe}
    (hidle : ∀ env locals τ, DescribesAs map origin env τ → probe env locals τ = .ok () τ)
    (full : Bool) (hs : s.StaysWithin (Scope.keeping [map, .mapping copy])
      (BindsCopy [map, .mapping copy] (.mapping copy)) start) :
    ((e.withProbe probe).prepare script >>= fun job =>
        (e.withProbe probe).carryOut records full ⟨key, relation, result, job, map, subclasses⟩) s
      = (e.prepare script >>= fun job =>
        e.carryOut records full ⟨key, relation, result, job, map, subclasses⟩) s := by
  have hplain := prepare_eq e script s
  rw [hengine, scriptEngine_eq] at hplain
  have hcached := compileCached_sound hs.sees.programs_sound s.store script
  cases hprepared : compileCached s.store true s.programs script with
  | error fault =>
      rw [hprepared] at hplain
      rw [bind_of_error (prepare_withProbe_of_error hprepared), bind_of_error hplain]
  | ok prepared =>
      rw [hprepared] at hplain hcached
      rw [bind_of_ok (prepare_withProbe_of_ok hprepared), bind_of_ok hplain]
      obtain ⟨text, htext, hprogram⟩ := compileText_of_compile hcached.1.symm
      have hkept : ({ s with programs := prepared.2 } : Session).StaysWithin
          (Scope.keeping [map, .mapping copy]) (BindsCopy [map, .mapping copy] (.mapping copy)) start :=
        ⟨{ hs.sees with programs_eq := rfl, programs_sound := hcached.2 _ rfl }, hs.rewrites⟩
      exact carryOut_withProbe he hkey hrelation hresult (hscript text _ htext hprogram).scriptWithin
        hmapWithin hsubclasses (fun t ht locals τ hτ =>
          hidle _ _ _ (describesAs_of_staysWithin hmap hstart ht hτ subclasses)) full hkept

/-- A probe that is idle at the moments at which the map and its copy say what the map said before the
run makes no difference to a run of a script that writes bound fields only. -/
theorem Run.perform_withProbe (hengine : e.engine = scriptEngine) (hs : s.IsPassive)
    (hr : r.SparesClasses e s) (hscript : WritesFieldsOnly r.script) {probe : Probe}
    (hidle : ∀ env locals τ, DescribesAs r.classes s.store env τ → probe env locals τ = .ok () τ) :
    r.perform (e.withProbe probe) s = r.perform e s := by
  obtain ⟨hsubclasses, hgiven⟩ := List.forall_mem_cons.mp hr.given
  simp only [Run.given, List.forall_mem_append, List.forall_mem_cons, List.forall_mem_map] at hgiven
  obtain ⟨⟨⟨hrecords, hselectors⟩, -⟩, hrelation, -, hclasses, -⟩ := hgiven
  have hplace : ∀ address, r.classes = .mapping address → address < s.store.mappings.size := by
    intro address heq
    rw [heq] at hclasses
    exact within_mapping.mp hclasses
  have hitems := hr.hooks.itemsAreLocal fun record hrecord =>
    ⟨(hrecords record hrecord).of_store, apart_copy (hrecords record hrecord) (hr.records record hrecord)⟩
  have hopening : r.opening (e.withProbe probe) = r.opening e := by cases r <;> rfl
  have hkeeps : OpeningKeeps e .passive (Target.IsSimple .passive)
      (BeforeCopy r.classes s.store.mappings.size (r.classes.tableEntries s.store)) :=
    openingKeeps_beforeCopy
  rw [Run.perform_eq, Run.perform_eq]
  refine settle_congr ?_
  rw [Run.steps_eq, Run.steps_eq, hopening]
  -- step by step the session goes on to be one whose map is not copied yet
  refine bind_congr_of_ok fun opened t hopened => ?_
  obtain ⟨⟨hkey, hresult⟩, ht⟩ := (hkeeps.opening (fun v hv => (hselectors v hv).of_store)
    hr.targets).of_ok (beforeCopy_of_isPassive hs hr) hopened
  refine bind_congr_of_ok fun relation t' hrelated => ?_
  obtain ⟨hrelation, ht'⟩ := (hkeeps.relationOr hkey hrelation.of_store).of_ok ht hrelated
  refine bind_congr_of_ok fun _ u hshared => ?_
  obtain ⟨start, hstart, hu⟩ :=
    staysWithin_of_bindShared ht' hr.table hplace hrelation hsubclasses.of_store hshared
  exact carryOut_congr_withProbe hengine hr.table hclasses.of_store hitems hkey hrelation
    hresult.selector hsubclasses.of_store hscript hstart hidle r.isFull hu

/-- At every moment of a run of a script that writes bound fields only, `DESCRIBE`, `$classes` and the
map that the caller passed say of every label what the map said before the run. -/
theorem descriptions_stay (hengine : e.engine = scriptEngine) (hs : s.IsPassive)
    (hr : r.SparesClasses e s) (hscript : WritesFieldsOnly r.script) {env : Environment}
    {locals : Locals} {τ : Store} (h : r.Passes e s env locals τ) :
    DescribesAs r.classes s.store env τ := by
  obtain ⟨probe, helsewhere, hdiffers⟩ := h
  by_contra hnot
  refine hdiffers (Run.perform_withProbe hengine hs hr hscript fun env' locals' τ' hdescribes => ?_)
  refine helsewhere env' locals' τ' fun heq => ?_
  simp only [Prod.mk.injEq] at heq
  obtain ⟨rfl, -, rfl⟩ := heq
  exact hnot hdescribes

/-! ## Runs of a new evaluator -/

/-- In the session of a new evaluator nothing writes anything where nothing in its store does. -/
theorem isPassive_of_start {σ : Store} (h : e.start σ = .ok s) (hclosed : σ.Closed σ.passive) :
    s.IsPassive := by
  obtain ⟨b, hb, rfl⟩ := eq_of_start h
  have hwithin : ∀ name binding, b.get? name = some binding → binding.value.Within σ.passive := by
    intro name binding hget
    rcases binding_of_initialBinder hb hget with ⟨_, -, -, hnull⟩ | ⟨-, selector, hvalue, hselector⟩
    · exact hnull ▸ within_null
    · exact hvalue ▸ within_selector.mpr (hselector _)
  refine ⟨hclosed, ⟨fun name binding hget _ => hwithin name binding hget,
    fun name binding hget hname => ⟨?_, .inl (hwithin name binding hget)⟩, fun binding hget => ?_⟩,
    cacheIsSound_nil⟩
  · rcases binding_of_initialBinder hb hget with ⟨kind, hkind, rfl, -⟩ | ⟨hfree, -⟩
    · rcases hname with rfl | rfl <;> simpa [reservedBindings] using hkind
    · rcases hname with rfl | rfl <;> exact absurd (by decide) hfree
  · rcases binding_of_initialBinder hb hget with ⟨_, -, -, hnull⟩ | ⟨hfree, -⟩
    · exact .inl hnull
    · exact absurd (by decide) hfree

/-- An evaluator of scripts for records of any shape, without hooks. -/
def describer : Evaluator where
  resolver := ⟨⟨"dict", []⟩, []⟩
  engine := scriptEngine
  before := Hook.none
  after := Hook.none

/-- A record with a key and a grade, and a map that describes a label. -/
def labelStore : Store :=
  ⟨#[[(.str "k", .int 1), (.str "grade", .null)], [(.str "x", .str "an item")]], #[], 0, ⟨0, none, 0⟩⟩

/-- The session of that evaluator with these. -/
def labelSession : Session :=
  match describer.start labelStore with
  | .ok s => s
  | .error _ => ⟨labelStore, .empty, .empty, "", [], []⟩

/-- A run that describes the record by the map. -/
def labelRun (script : String) : Run :=
  .simple [.mapping 0] ⟨.selector (.path "k" ["k"]), .null, .str script, .mapping 1, .null,
    .selector (.path "grade" ["grade"])⟩

/-- That evaluator can be made. -/
theorem start_describer : describer.start labelStore = .ok labelSession := by rfl

/-- Nothing that can be reached in this session writes anything. -/
theorem isPassive_labelSession : labelSession.IsPassive := by
  refine isPassive_of_start start_describer ?_
  rintro (address | address) hp v hv
  · have haddress : address = 0 ∨ address = 1 := by
      have hless : address < 2 := hp
      omega
    rcases haddress with rfl | rfl <;> revert v <;>
      simp [labelStore, Store.contents, Store.entries]
  · exact absurd hp (Nat.not_lt_zero _)

/-- In these runs nothing but the script can write the map. -/
theorem sparesClasses_labelRun (script : String) :
    (labelRun script).SparesClasses describer labelSession where
  table := trivial
  given := by
    have hstore : labelSession.store = labelStore := rfl
    simp [labelRun, Run.given, Run.records, Run.selectors, Run.targets, Run.relation, Run.script,
      Run.classes, Run.subclasses, Record.numbered, Store.passive, Store.all, hstore, labelStore]
  targets v hv σ t ht := by
    have hcompiled : describer.resolver.compileTarget σ v
        = .ok ⟨.path "grade" ["grade"], some (.path "grade" ["grade"])⟩ := by
      rw [List.mem_singleton.mp hv]
      exact compileTarget_path _ _ _ _
    rw [hcompiled] at ht
    cases ht
    exact .inr ⟨_, _, _, rfl⟩
  records record hrecord p hp table htable := by
    rw [List.mem_singleton.mp hrecord] at hp
    rw [List.mem_singleton.mp htable]
    cases hp
    simp [labelRun, Run.classes, Value.place?]
  current b hget p hp := by
    have hcurrent : labelSession.binder.get? "$ctxI" = some ⟨"$ctxI", .null, .literal⟩ := by rfl
    rw [hcurrent] at hget
    cases hget
    cases hp
  hooks := ⟨fun _ _ _ _ => local_pure trivial, fun _ _ _ _ => local_pure trivial⟩

/-- A script that reads a description in both ways. -/
def readingScript : String := "SET $result = CONCAT(DESCRIBE(\"x\"), \"/\", $classes.x)\n"

/-- It writes bound fields only. -/
theorem writesFieldsOnly_readingScript : WritesFieldsOnly (.str readingScript) := by
  rintro text program ⟨rfl⟩ hprogram
  have hparts : (compileText true readingScript).map
      (fun p => (p.allStatements.map Stmt.fieldOwner?, p.mentions))
        = .ok ([none], ["$result", "CONCAT", "DESCRIBE", "$classes"]) := by
    decide +kernel
  rw [hprogram] at hparts
  simp only [Except.map, Except.ok.injEq, Prod.mk.injEq] at hparts
  obtain ⟨howners, hmentions⟩ := hparts
  refine ⟨fun s hs => ?_, hmentions ▸ by decide⟩
  have howner : s.fieldOwner? ∈ program.allStatements.map Stmt.fieldOwner? := List.mem_map_of_mem hs
  rwa [howners, List.mem_singleton] at howner

/-- It is told the same in both ways. -/
theorem perform_readingScript :
    ((labelRun readingScript).perform describer labelSession).1
      = .completed "\n  Total -> 1\n\n  an item/an item:1 -> 100.0 %\n" 1 := by
  unfold labelRun Run.perform runSimple simpleRun resultTarget bindResultKey compiled
  simp only [compileKey_selector, compileTarget_path]
  decide +kernel

/-- At a moment that its run passes, the map and its copy say what the map said before. -/
theorem descriptions_stay_readingScript : ∃ env τ,
    (labelRun readingScript).Passes describer labelSession env [] τ ∧
      DescribesAs (.mapping 1) labelStore env τ := by
  obtain ⟨env, τ, hpasses⟩ := Run.exists_passes rfl
    (Prod.ext perform_readingScript rfl : _ = (Outcome.completed _ 1, _)) (by decide)
  exact ⟨env, τ, hpasses, descriptions_stay rfl isPassive_labelSession
    (sparesClasses_labelRun readingScript) writesFieldsOnly_readingScript hpasses⟩

/-- A script that sets a field of the copy and then reads the description in both ways. -/
def changingScript : String := "SET $classes.x = \"changed\"\n" ++ readingScript

/-- It is told different things, and leaves the copy changed for the items to come. -/
theorem perform_changingScript :
    let ended := (labelRun changingScript).perform describer labelSession
    let env : Environment := .make ended.2.store ended.2.binder (.mapping 1) .null
    (ended.1, ((env.valueOf "$classes").entryFor ended.2.store "x").toOption.map
        fun v => v.label ended.2.store)
      = (.completed "\n  Total -> 1\n\n  an item/changed:1 -> 100.0 %\n" 1, some "changed") := by
  unfold labelRun Run.perform runSimple simpleRun resultTarget bindResultKey compiled
  simp only [compileKey_selector, compileTarget_path]
  decide +kernel

/-- Where a script sets a field of the copy, the map and the copy need not say the same. -/
theorem descriptions_differ :
    ¬ ∀ (e : Evaluator) (r : Run) (s s' : Session) (report : String) (n : Nat),
      e.engine = scriptEngine → s.IsPassive → r.SparesClasses e s →
      r.perform e s = (.completed report n, s') →
      DescribesAs r.classes s.store (.make s'.store s'.binder r.classes r.subclasses) s'.store := by
  intro hall
  obtain ⟨houtcome, hchanged⟩ := Prod.mk.inj perform_changingScript
  have hdescribes := hall _ _ _ _ _ _ rfl isPassive_labelSession
    (sparesClasses_labelRun changingScript) (Prod.ext houtcome rfl)
  have hmap : (Value.mapping 1).entryFor labelStore "x" = .ok (.str "an item") := by rfl
  have hsame := (hdescribes.shown "x").trans hmap
  have hlabels : some "changed" = some "an item" := hchanged.symm.trans
    (congrArg (fun found => found.toOption.map fun v =>
      v.label ((labelRun changingScript).perform describer labelSession).2.store) hsame)
  simp at hlabels

end

end Evaluator

end Rubric
