import Mathlib.Data.List.Pairwise
import Rubric.Proofs.Evaluator.Locality
import Rubric.Proofs.Evaluator.Start
import Rubric.Proofs.Evaluator.Visits
import Rubric.Proofs.Script.Quiet

/-!
# Items that do not influence one another

The visit to an item looks at the item, at its context and at what all items share, and writes the bound
fields of the item.  Where records share no places with one another nor with the rest, visits to items of
different keys can be made in either order.

* `PlansPlainly` : what a run binds and runs where its visits write bound fields only;
* `touches_visit` : what a visit looks at and writes;
* `Isolated` : records that share no places, with keys that nothing written is read for;
* `visits_swap` : visits to two neighbouring items that are not linked, in the other order.
-/

namespace Rubric

open Rubric.Script
open Value (Place)
open Value Eval StateFrame

namespace Evaluator

/-! ## What a visit looks at and writes -/

/-- Whether all that a run binds and looks at is within a region that its items share, the targets bound
are fields of some names, the relation is that of having the same key, and the script sets no field of a
value and calls nothing that writes. -/
structure PlansPlainly (fields : List String) (shared : Region) (p : Plan) (b : Binder) : Prop where
  written : shared.written = Set.univ
  binds : b.WithinBut itemNames shared
  items : ∀ name ∈ itemNames, ∃ binding, b.get? name = some binding ∧ binding.kind ≠ .target
  targets : ∀ name binding, b.get? name = some binding → binding.kind = .target →
    binding.value = .null ∨ ∃ field ∈ fields, boundField? binding = some field
  pkAll : ∀ binding, b.get? "$pkAll" = some binding → ∀ s, binding.value ≠ .setter s
  relation : ∃ tag, p.relation = .function tag (.sameKey p.key)
  result : p.result.selector.Within shared
  classes : p.classes.Within shared
  subclasses : p.subclasses.Within shared
  job : ∃ program : Program, p.job = programJob program ∧
    (∀ s ∈ program.allStatements, s.fieldOwner? = none) ∧
    ∀ function ∈ program.calledFunctions, function ∉ itemNames ∧
      Environment.CallsQuietly ⟨b, .null, .null⟩ function

/-- The environment that a script runs in for an item with a context. -/
def itemEnvironment (p : Plan) (b : Binder) (item list : Value) (σ : Store) : Environment :=
  .make σ ((b.rebind "$ctxI" item none).rebind "$ctxC" list none) p.classes p.subclasses

section

variable {fields : List String} {shared region : Region} {p : Plan} {b : Binder}
  {item list : Value} {σ : Store}

/-- Other names than those of an item are bound as before. -/
theorem get?_itemEnvironment (p : Plan) {name : String} (hname : name ∉ itemNames) :
    (itemEnvironment p b item list σ).binder.get? name = b.get? name := by
  have hne : name ≠ "$ctxI" ∧ name ≠ "$ctxC" := by simpa [itemNames] using hname
  simp [itemEnvironment, Environment.make, Binder.get?_rebind, hne.1, hne.2]

/-- All names keep their kinds. -/
theorem kind_itemEnvironment (p : Plan) {name : String} {binding : Binding}
    (h : (itemEnvironment p b item list σ).binder.get? name = some binding) :
    ∃ old, b.get? name = some old ∧ binding.kind = old.kind := by
  simp only [itemEnvironment, Environment.make, Binder.get?_rebind, Option.map_eq_some_iff] at h
  obtain ⟨_, ⟨old, hold, rfl⟩, rfl⟩ := h
  refine ⟨old, hold, ?_⟩
  split <;> split <;> rfl

namespace PlansPlainly

/-- The names of an item are bound. -/
theorem contains (h : PlansPlainly fields shared p b) : ∀ name ∈ itemNames, b.contains name := by
  intro name hname
  obtain ⟨binding, hget, -⟩ := h.items name hname
  simp [Binder.contains, hget]

/-- The current item is the item. -/
theorem item_eq (h : PlansPlainly fields shared p b) :
    (itemEnvironment p b item list σ).item = item := by
  obtain ⟨binding, hget, -⟩ := h.items "$ctxI" (by simp [itemNames])
  simp [Environment.item, Environment.valueOf, itemEnvironment, Environment.make, Binder.get?_rebind,
    hget]

/-- What is bound for an item is within a region with the item and its context. -/
theorem value_within (h : PlansPlainly fields shared p b) (hshared : shared.places ⊆ region.places)
    (hwritten : region.written = Set.univ) (hitem : item.Within region) (hlist : list.Within region)
    {name : String} {binding : Binding}
    (hget : (itemEnvironment p b item list σ).binder.get? name = some binding) :
    binding.value.Within region := by
  by_cases hname : name ∈ itemNames
  · simp only [itemEnvironment, Environment.make, Binder.get?_rebind, Option.map_eq_some_iff] at hget
    obtain ⟨_, ⟨old, -, rfl⟩, rfl⟩ := hget
    rcases (by simpa [itemNames] using hname : name = "$ctxI" ∨ name = "$ctxC") with rfl | rfl
    · exact hitem
    · exact hlist
  · rw [get?_itemEnvironment p hname] at hget
    exact (h.binds name binding hget hname).mono hshared (hwritten ▸ Set.subset_univ _)

/-- A script for an item gets at what is within the region only. -/
theorem environment_within (h : PlansPlainly fields shared p b)
    (hshared : shared.places ⊆ region.places) (hwritten : region.written = Set.univ)
    (hitem : item.Within region) (hlist : list.Within region) :
    (itemEnvironment p b item list σ).Within (.free region) := by
  have hvalue {name : String} {binding : Binding}
      (hget : (itemEnvironment p b item list σ).binder.get? name = some binding) :
      binding.value.Within region := h.value_within hshared hwritten hitem hlist hget
  have hnamed (name : String) :
      ((itemEnvironment p b item list σ).valueOf name).Within region := by
    unfold Environment.valueOf
    cases hget : (itemEnvironment p b item list σ).binder.get? name with
    | none => exact within_null
    | some binding => exact hvalue hget
  have htable {v : Value} (hv : v.Within shared) :
      (if v.truthy σ then v else .null).Within region := by
    split
    · exact hv.mono hshared (hwritten ▸ Set.subset_univ _)
    · exact within_null
  exact ⟨fun _ _ hget _ => hvalue hget, fun _ _ hget _ => .inl (hvalue hget), hnamed _, hnamed _,
    hnamed _, htable h.classes, htable h.subclasses⟩

/-- It may write there. -/
theorem environment_mayWrite (h : PlansPlainly fields shared p b)
    (hshared : shared.places ⊆ region.places) (hwritten : region.written = Set.univ)
    (hitem : item.Within region) (hlist : list.Within region) :
    (itemEnvironment p b item list σ).MayWrite (.free region) := fun henv _ _ hget hkind _ hv =>
  local_assignBound_within henv hkind (h.value_within hshared hwritten hitem hlist hget) hv

/-- It writes the bound fields of the item only. -/
theorem rewrites_job (h : PlansPlainly fields shared p b) :
    Leaves (Store.Rewrites (item.writesOf fields)) (p.job (itemEnvironment p b item list σ)) := by
  obtain ⟨program, hjob, hsets, hcalls⟩ := h.job
  have hrelation : ∀ s, (itemEnvironment p b item list σ).valueOf "$pkAll" ≠ .setter s := by
    intro s
    unfold Environment.valueOf
    rw [get?_itemEnvironment p (by decide)]
    cases hget : b.get? "$pkAll" with
    | none => simp
    | some binding => exact h.pkAll binding hget s
  -- the names of an item are bound to no field, so the fields are those that were bound before
  have hfields : (itemEnvironment p b item list σ).BindsFields fields := by
    intro name binding hget hkind
    have hname : name ∉ itemNames := by
      intro hname
      obtain ⟨old, hold, heq⟩ := kind_itemEnvironment p hget
      obtain ⟨binding', hget', hother⟩ := h.items name hname
      rw [hold] at hget'
      cases hget'
      exact hother (heq ▸ hkind)
    rw [get?_itemEnvironment p hname] at hget
    exact h.targets name binding hget hkind
  have hquiet : ∀ function ∈ program.calledFunctions,
      (itemEnvironment p b item list σ).CallsQuietly function := by
    intro function hfunction
    obtain ⟨hname, hquiet⟩ := hcalls function hfunction
    unfold Environment.CallsQuietly at hquiet ⊢
    rw [get?_itemEnvironment p hname]
    exact hquiet
  have hwrites := program.rewrites_run hrelation hfields hsets hquiet
  rw [h.item_eq] at hwrites
  rw [hjob]
  exact hwrites.bind fun _ => leaves_pure _

end PlansPlainly

/-- Going on with the tags of an item changes no contents. -/
theorem quiet_openItem (position : Nat) : (Eval.openItem position).IsQuiet := fun _ =>
  ⟨rfl, rfl, rfl⟩

/-- Nor does going on from an earlier tag. -/
theorem quiet_resumeTags (tag : Tag) : (Eval.resumeTags tag).IsQuiet := fun _ => ⟨rfl, rfl, rfl⟩

/-- The visit to an item looks at what all items share, at the item and at its context, and writes the
bound fields of the item. -/
theorem touches_visit (h : PlansPlainly fields shared p b) (hshared : shared.places ⊆ region.places)
    (hwritten : region.written = Set.univ) {item : Record} (hitem : item.value.Within region)
    {members : List Record} (hmembers : ∀ r ∈ members, r.value.Within region) :
    (visit p b (pure members) item).Touches region (item.value.writesOf fields) where
  reads := by
    have hresult : p.result.selector.Within region := fun m hm =>
      (h.result m hm).mono hshared (hwritten ▸ Set.subset_univ _)
    refine (local_openItem _).bind fun outer _ => ?_
    -- the members of the context are given, not found
    have hknown : Eval.Local (.free region) (pure members) fun ms => ms = members := local_pure rfl
    refine hknown.bind ?_
    rintro _ rfl
    refine (local_newList fun v hv => ?_).bind fun list hlist => ?_
    · obtain ⟨r, hr, rfl⟩ := List.mem_map.mp hv
      exact hmembers r hr
    have hclasses : p.classes.Within region := h.classes.mono hshared (hwritten ▸ Set.subset_univ _)
    have hsubclasses : p.subclasses.Within region :=
      h.subclasses.mono hshared (hwritten ▸ Set.subset_univ _)
    refine local_store_bind (fun σ σ' hσ => ?_) fun σ _ => ?_
    · simp only [Environment.make, truthy_agree hσ hclasses, truthy_agree hσ hsubclasses]
    obtain ⟨program, hjob, hsets, -⟩ := h.job
    have hrun : Eval.Local (.free region) (p.job (itemEnvironment p b item.value list σ))
        fun _ => True := by
      rw [hjob]
      exact (program.local_run (h.environment_within hshared hwritten hitem hlist)
        (h.environment_mayWrite hshared hwritten hitem hlist) hsets).bind fun _ _ =>
          local_pure trivial
    refine hrun.bind fun _ _ => ?_
    refine (Selector.local_read hresult hitem).bind fun v hv => ?_
    refine local_store_bind (fun σ σ' hσ => by rw [label_agree hσ hv]) fun σ _ => ?_
    exact (local_resumeTags outer).bind fun _ _ => local_pure trivial
  rewrites := by
    have hquiet {α : Type} {action : Eval α} (hquiet : action.IsQuiet) :
        Leaves (Store.Rewrites (item.value.writesOf fields)) action :=
      hquiet.imp fun _ _ h => h.rewrites
    refine (hquiet (quiet_openItem _)).bind fun outer => ?_
    refine (leaves_pure members).bind fun _ => ?_
    refine (hquiet (quiet_newList _)).bind fun list => ?_
    refine leaves_get_bind fun σ => ?_
    refine h.rewrites_job.bind fun _ => ?_
    refine (hquiet (Selector.quiet_read _ _)).bind fun v => ?_
    refine leaves_get_bind fun σ => ?_
    exact (hquiet (quiet_resumeTags outer)).bind fun _ => leaves_pure _
  tags := by
    intro σ a τ hok
    obtain ⟨outer, σ₁, hopen, h⟩ := bind_ok.mp hok
    obtain ⟨_, σ₂, -, h⟩ := bind_ok.mp h
    obtain ⟨_, σ₃, -, h⟩ := bind_ok.mp h
    obtain ⟨_, _, -, h⟩ := bind_ok.mp h
    obtain ⟨_, σ₄, -, h⟩ := bind_ok.mp h
    obtain ⟨_, σ₅, -, h⟩ := bind_ok.mp h
    obtain ⟨_, _, -, h⟩ := bind_ok.mp h
    obtain ⟨_, σ₆, hresume, hpure⟩ := bind_ok.mp h
    cases hopen
    cases hresume
    cases hpure
    rfl

end

/-! ## Records that are isolated -/

/-- The fields that may be written at a place: those of the records. -/
def fieldWrites (fields : List String) (records : List Record) (place : Place) : List String :=
  if ∃ r ∈ records, r.value.place? = some place then fields else []

/-- Whether no place is reached from both of two records. -/
def ShareNothing (σ : Store) (r r' : Record) : Prop :=
  ∀ place, ¬ (σ.Reaches [r.value] (.place place) ∧ σ.Reaches [r'.value] (.place place))

instance (σ : Store) : Std.Symm (ShareNothing σ) where
  symm _ _ h place hboth := h place hboth.symm

/-- Whether the records of a run share no places with one another, none of them is reached from what all
items share, and their keys are not read from what is written. -/
structure Isolated (fields : List String) (shared : Region) (p : Plan) (b : Binder)
    (records : List Record) (σ : Store) : Prop where
  plain : PlansPlainly fields shared p b
  closed : σ.Closed shared
  keys : ∀ r ∈ records, p.key.Misses σ (fieldWrites fields records) r.value
  hidden : ∀ r ∈ records, ∀ place, r.value.place? = some place → place ∉ shared
  disjoint : records.Pairwise (ShareNothing σ)

/-- Whether two records of a run are linked by keys that are not told apart. -/
abbrev Plan.Links (p : Plan) (σ : Store) (records : List Record) : Record → Record → Prop :=
  Linked p.keyOf σ records

/-- The region of an item: what all items share, and what is reached from the records that are linked to
it. -/
def regionOf (shared : Region) (p : Plan) (σ : Store) (records : List Record) (item : Record) :
    Region where
  places := shared.places ∪ {place | ∃ r ∈ records, p.Links σ records item r ∧
    σ.Reaches [r.value] (.place place)}
  written := Set.univ

/-- Whether a store is one that visits lead to: no more than the fields of the records is written, and the
region of every item is closed. -/
structure Visited (fields : List String) (shared : Region) (p : Plan) (records : List Record)
    (σ τ : Store) : Prop where
  rewritten : σ.Rewrites (fieldWrites fields records) τ
  closed : ∀ r ∈ records, τ.Closed (regionOf shared p σ records r)

section

variable {fields : List String} {shared : Region} {p : Plan} {b : Binder} {records : List Record}
  {σ τ : Store} {r r' : Record}

/-- A record is within the region of an item that it is linked to. -/
theorem within_regionOf (hr' : r' ∈ records) (h : p.Links σ records r r') :
    r'.value.Within (regionOf shared p σ records r) := by
  intro m hm
  cases m with
  | written name => trivial
  | place place => exact .inr ⟨r', hr', h, .root List.mem_cons_self hm⟩

/-- Linked items have one region. -/
theorem regionOf_eq (h : p.Links σ records r r') :
    regionOf shared p σ records r = regionOf shared p σ records r' := by
  have hlinks (r'' : Record) : p.Links σ records r r'' ↔ p.Links σ records r' r'' :=
    ⟨fun h' => .trans _ _ _ (.symm _ _ h) h', fun h' => .trans _ _ _ h h'⟩
  simp only [regionOf, hlinks]

namespace Isolated

/-- The region of an item is closed. -/
theorem closed_regionOf (h : Isolated fields shared p b records σ) (r : Record) :
    σ.Closed (regionOf shared p σ records r) := by
  rintro place (hplace | ⟨r', hr', hlinks, hreach⟩) v hv m hm
  · cases m with
    | written name => trivial
    | place place' => exact .inl (h.closed place hplace v hv _ hm)
  · cases m with
    | written name => trivial
    | place place' => exact .inr ⟨r', hr', hlinks, .content hreach hv hm⟩

/-- A record is at no place of the region of an item that it is not linked to. -/
theorem place_notMem_regionOf (h : Isolated fields shared p b records σ) (hr : r ∈ records)
    (hlinks : ¬ p.Links σ records r r') {place : Place} (hplace : r.value.place? = some place) :
    place ∉ regionOf shared p σ records r' := by
  rintro (hshared | ⟨r'', hr'', hlinks', hreach⟩)
  · exact h.hidden r hr place hplace hshared
  · have hne : r ≠ r'' := by
      rintro rfl
      exact hlinks (.symm _ _ hlinks')
    exact h.disjoint.forall hr hr'' hne place ⟨reaches_place hplace, hreach⟩

/-- In any order, the records are isolated. -/
theorem perm {records' : List Record} (h : Isolated fields shared p b records σ)
    (hperm : records'.Perm records) : Isolated fields shared p b records' σ where
  plain := h.plain
  closed := h.closed
  keys r hr := by
    have hwrites : fieldWrites fields records' = fieldWrites fields records := by
      funext place
      simp only [fieldWrites, hperm.mem_iff]
    exact hwrites ▸ h.keys r (hperm.mem_iff.mp hr)
  hidden r hr := h.hidden r (hperm.mem_iff.mp hr)
  disjoint := (hperm.pairwise_iff fun hd => Std.Symm.symm _ _ hd).mpr h.disjoint

/-- Before the visits. -/
theorem visited (h : Isolated fields shared p b records σ) :
    Visited fields shared p records σ σ :=
  ⟨.refl _ σ, fun r _ => h.closed_regionOf r⟩

end Isolated

/-- The next tag does not matter. -/
theorem Visited.withTag (h : Visited fields shared p records σ τ) (tag : Tag) :
    Visited fields shared p records σ { τ with nextTag := tag } :=
  ⟨h.rewritten.trans (.withTag _ τ tag), h.closed⟩

end

/-! ## Visits to isolated records -/

section

variable {fields : List String} {shared : Region} {p : Plan} {b : Binder} {records : List Record}
  {σ τ υ : Store} {i r : Record}

/-- Keys that are equal are not told apart. -/
theorem confusable_of_sameKey {key : Selector} {tag : Tag} {σ' : Store}
    (hpure : ∀ {k τ}, key.read r.value σ = .ok k τ → τ = σ)
    (hpure' : ∀ {k τ}, key.read i.value σ = .ok k τ → τ = σ)
    (h : related (.function tag (.sameKey key)) r.value i.value σ = .ok true σ') :
    Confusable (fun r : Record => key.read r.value) σ r i := by
  unfold related at h
  rw [Value.call, Function.call] at h
  obtain ⟨answer, σ₁, hcall, htruthy⟩ := bind_ok.mp h
  obtain ⟨pair, σ₂, hpair, hread⟩ := bind_ok.mp hcall
  cases hpair
  obtain ⟨k, σ₃, hleft, hnext⟩ := bind_ok.mp hread
  -- reading the two keys leaves the store alone, so they are compared where they were read
  obtain rfl := hpure hleft
  obtain ⟨k', σ₄, hright, hcompare⟩ := bind_ok.mp hnext
  obtain rfl := hpure' hright
  obtain ⟨_, _, hget, hcompare⟩ := bind_ok.mp hcompare
  cases hget
  obtain ⟨same, σ₅, hequal, hbool⟩ := bind_ok.mp hcompare
  cases hbool
  obtain ⟨_, _, hget, htrue⟩ := bind_ok.mp htruthy
  cases hget
  obtain rfl : same = true := by
    cases htrue
    rfl
  have hsame : k.equal σ₄ k' = .ok true := by
    cases hanswer : k.equal _ k' with
    | error fault =>
        rw [hanswer] at hequal
        cases hequal
    | ok same =>
        rw [hanswer] at hequal
        cases hequal
        rfl
  refine ⟨k, k', _, _, hleft, hright, fun hfound => ?_⟩
  rw [found_of_equal hsame] at hfound
  cases hfound.1

namespace Isolated

/-- The key of a record is what it was. -/
theorem key_alike (h : Isolated fields shared p b records σ)
    (hτ : Visited fields shared p records σ τ) (hr : r ∈ records) :
    Eval.AnswersAlike σ τ (p.keyOf r)
      (Value.Within (σ.unwritten (fieldWrites fields records))) :=
  Selector.answersAlike_read hτ.rewritten (h.keys r hr)

/-- The relation holds where it did. -/
theorem relates_alike (h : Isolated fields shared p b records σ)
    (hτ : Visited fields shared p records σ τ) (hr : r ∈ records) (hi : i ∈ records) :
    Eval.AnswersAlike σ τ (p.relates r i) fun _ => True := by
  obtain ⟨tag, hrelation⟩ := h.plain.relation
  unfold Plan.relates
  rw [hrelation]
  exact answersAlike_sameKey hτ.rewritten (h.keys r hr) (h.keys i hi) tag

/-- The context of an item is what it was. -/
theorem context_alike (h : Isolated fields shared p b records σ)
    (hτ : Visited fields shared p records σ τ) (hi : i ∈ records) :
    Eval.AnswersAlike σ τ (contextOf p.relates i records) fun _ => True :=
  answersAlike_contextOf fun _ hr => h.relates_alike hτ hr hi

/-- Looking whether the relation holds leaves the store alone. -/
theorem relates_pure (h : Isolated fields shared p b records σ)
    (hτ : Visited fields shared p records σ τ) (hr : r ∈ records) (hi : i ∈ records) {tied : Bool}
    (hok : p.relates r i τ = .ok tied υ) : υ = τ :=
  ((h.relates_alike hτ hr hi).symm.ok hok).2.1

/-- Records that are related are linked. -/
theorem links_of_relates (h : Isolated fields shared p b records σ) (hr : r ∈ records)
    (hi : i ∈ records) (hok : p.relates r i σ = .ok true υ) : p.Links σ records i r := by
  obtain ⟨tag, hrelation⟩ := h.plain.relation
  unfold Plan.relates at hok
  rw [hrelation] at hok
  have hpure {r : Record} (hr : r ∈ records) {k : Value} {τ : Store}
      (hread : p.key.read r.value σ = .ok k τ) : τ = σ :=
    ((h.key_alike h.visited hr).ok hread).2.1
  exact .symm _ _ (.rel r i ⟨hr, hi, confusable_of_sameKey (hpure hr) (hpure hi) hok⟩)

/-- What is in the context of an item is linked to it. -/
theorem links_of_context (h : Isolated fields shared p b records σ) (hi : i ∈ records)
    {members : List Record} (hcontext : contextOf p.relates i records σ = .ok members σ) :
    ∀ r ∈ members, r ∈ records ∧ p.Links σ records i r := by
  intro r hmem
  obtain ⟨hr, hok⟩ := tied_of_mem_contextOf (fun r hr _ _ hok => h.relates_pure h.visited hr hi hok)
    hcontext r hmem
  exact ⟨hr, h.links_of_relates hr hi hok⟩

/-- The visit to an item among the records is a visit with its context. -/
theorem visitAmong_eq (h : Isolated fields shared p b records σ)
    (hτ : Visited fields shared p records σ τ) (hi : i ∈ records) {members : List Record}
    (hcontext : contextOf p.relates i records σ = .ok members σ) :
    visitAmong p b records i τ = visit p b (pure members) i τ := by
  obtain ⟨outer, τ', hopen, hτ'⟩ : ∃ outer τ', Eval.openItem i.position τ = .ok outer τ' ∧
      Visited fields shared p records σ τ' := ⟨_, _, rfl, hτ.withTag _⟩
  have hfound := ((h.context_alike hτ' hi).ok hcontext).2.2
  unfold visitAmong visit
  rw [bind_of_ok hopen, bind_of_ok hopen, bind_of_ok hfound]
  rfl

/-- Where a visit succeeds, the item has a context. -/
theorem exists_context (h : Isolated fields shared p b records σ)
    (hτ : Visited fields shared p records σ τ) (hi : i ∈ records) {t : String × Record}
    (hok : visitAmong p b records i τ = .ok t υ) :
    ∃ members, contextOf p.relates i records σ = .ok members σ := by
  obtain ⟨outer, τ', hopen, hnext⟩ := bind_ok.mp hok
  obtain ⟨members, τ'', hcontext, -⟩ := bind_ok.mp hnext
  have hτ' : Visited fields shared p records σ τ' := by
    cases hopen
    exact hτ.withTag _
  exact ⟨members, ((h.context_alike hτ' hi).symm.ok hcontext).2.2⟩

/-- A visit touches the region of its item. -/
theorem touches (h : Isolated fields shared p b records σ) (hi : i ∈ records)
    {members : List Record} (hcontext : contextOf p.relates i records σ = .ok members σ) :
    (visit p b (pure members) i).Touches (regionOf shared p σ records i)
      (i.value.writesOf fields) := by
  refine touches_visit h.plain Set.subset_union_left rfl (within_regionOf hi (.refl i))
    fun r hmem => ?_
  obtain ⟨hr, hlinks⟩ := h.links_of_context hi hcontext r hmem
  exact within_regionOf hr hlinks

/-- It writes in no region of an item that is not linked to its own. -/
theorem writes_elsewhere (h : Isolated fields shared p b records σ) (hi : i ∈ records)
    (hlinks : ¬ p.Links σ records i r) :
    ∀ place ∈ regionOf shared p σ records r, i.value.writesOf fields place = [] := by
  intro place hplace
  unfold Value.writesOf
  split
  · exact absurd hplace (h.place_notMem_regionOf hi hlinks ‹_›)
  · rfl

/-- What it writes is in the region of its item. -/
theorem writes_inside (hi : i ∈ records) {place : Place}
    (hwrites : i.value.writesOf fields place ≠ []) : place ∈ regionOf shared p σ records i := by
  unfold Value.writesOf at hwrites
  split at hwrites
  · exact .inr ⟨i, hi, .refl i, reaches_place ‹_›⟩
  · exact absurd rfl hwrites

/-- A visit leads to a store that visits lead to. -/
theorem visited_after (h : Isolated fields shared p b records σ)
    (hτ : Visited fields shared p records σ τ) (hi : i ∈ records) {t : String × Record}
    (hok : visitAmong p b records i τ = .ok t υ) : Visited fields shared p records σ υ := by
  obtain ⟨members, hcontext⟩ := h.exists_context hτ hi hok
  have htouches := h.touches hi hcontext
  rw [h.visitAmong_eq hτ hi hcontext] at hok
  refine ⟨hτ.rewritten.trans ((htouches.rewritten hok).mono fun place => ?_), fun r hr => ?_⟩
  · unfold Value.writesOf fieldWrites
    split
    · rw [if_pos ⟨i, hi, ‹_›⟩]
      exact .inr rfl
    · exact .inl rfl
  · by_cases hlinks : p.Links σ records i r
    · rw [← regionOf_eq hlinks]
      exact htouches.closed (hτ.closed i hi) hok
    · exact htouches.closed_elsewhere (hτ.closed r hr) (h.writes_elsewhere hi hlinks) hok

/-- Visits leave the keys as they are. -/
theorem keysStand (h : Isolated fields shared p b records σ) :
    KeysStand p b records σ (σ.unwritten (fieldWrites fields records))
      (Visited fields shared p records σ) where
  keys hτ _ hr _ hseen := answersAlike_firstOfKey? hτ.rewritten (h.key_alike hτ hr) hseen
  visits hτ _ hi hok := h.visited_after hτ hi hok

/-- Visits to two items that are not linked can be made in either order. -/
theorem visits_swap (h : Isolated fields shared p b records σ) {before after : List Record}
    {a c : Record} (hitems : ∀ r ∈ before ++ a :: c :: after, r ∈ records)
    (hlinks : ¬ p.Links σ records a c) {tallies : List (String × Record)}
    (hok : (before ++ a :: c :: after).mapM (visitAmong p b records) σ = .ok tallies υ) :
    ∃ tallies', (before ++ c :: a :: after).mapM (visitAmong p b records) σ = .ok tallies' υ ∧
      tallies'.Perm tallies := by
  have ha : a ∈ records := hitems a (by simp)
  have hc : c ∈ records := hitems c (by simp)
  refine mapM_swap (I := Visited fields shared p records σ)
    (fun k hk _ _ _ hs hv => h.visited_after hs (hitems k (by simp [hk])) hv) ?_ h.visited hok
  intro τ x υ y υ' hτ hfirst hsecond
  have hυ := h.visited_after hτ ha hfirst
  obtain ⟨members, hcontext⟩ := h.exists_context hτ ha hfirst
  obtain ⟨members', hcontext'⟩ := h.exists_context hυ hc hsecond
  rw [h.visitAmong_eq hτ ha hcontext] at hfirst
  rw [h.visitAmong_eq hυ hc hcontext'] at hsecond
  have hlinks' : ¬ p.Links σ records c a := fun hca => hlinks (.symm _ _ hca)
  obtain ⟨τ', hsecond', hfirst'⟩ := (h.touches ha hcontext).commute (h.touches hc hcontext')
    (fun place hw => ⟨writes_inside ha hw, fun hmem => hw (h.writes_elsewhere ha hlinks place hmem)⟩)
    (fun place hw => ⟨writes_inside hc hw, fun hmem => hw (h.writes_elsewhere hc hlinks' place hmem)⟩)
    (hτ.closed a ha) (hτ.closed c hc) hfirst hsecond
  rw [← h.visitAmong_eq hτ hc hcontext'] at hsecond'
  have hτ' := h.visited_after hτ hc hsecond'
  rw [← h.visitAmong_eq hτ' ha hcontext] at hfirst'
  exact ⟨τ', hsecond', hfirst'⟩

end Isolated

end

end Evaluator

end Rubric
