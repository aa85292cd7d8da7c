import Mathlib.Data.Set.Operations
import Rubric.Value.Equality

/-!
# What values reach

A value mentions the places of the mappings and objects in it, whose contents are values again, and
the attributes that the setters in it write.  A region is a set of places together with a set of
attributes.  Where a region is closed in a store, values within it lead to places of the region only;
so two stores that agree on a closed region cannot be told apart by values within it.  What some values
reach is the smallest closed region that they are within.
-/

namespace Rubric

open Value (Place)

/-! ## What values mention -/

/-- What a value mentions: a place, or an attribute that a setter writes. -/
inductive Mention where
  | place (p : Place)
  | written (name : String)

mutual

/-- The attributes that a setter writes. -/
def Setter.names : Setter → List String
  | .path _ attributes => attributes.getLast?.toList
  | .composite parts => Setter.allNames parts

/-- The attributes that several setters write. -/
def Setter.allNames : List Setter → List String
  | [] => []
  | s :: ss => s.names ++ Setter.allNames ss

end

mutual

/-- What a value mentions. -/
def Value.mentions : Value → List Mention
  | .list _ items => Value.allMentions items
  | .tuple items => Value.allMentions items
  | .row _ _ items => Value.allMentions items
  | .set _ items => Value.allMentions items
  | .mapping address => [.place (.mapping address)]
  | .object address => [.place (.object address)]
  | .function _ body => body.mentions
  | .selector s => s.mentions
  | .setter s => s.names.map .written
  | .target s none => s.mentions
  | .target s (some assign) => s.mentions ++ assign.names.map .written
  | _ => []

/-- What several values mention. -/
def Value.allMentions : List Value → List Mention
  | [] => []
  | v :: vs => v.mentions ++ Value.allMentions vs

/-- What a selector mentions. -/
def Selector.mentions : Selector → List Mention
  | .path _ _ => []
  | .composite parts => Selector.allMentions parts
  | .computed _ callee => callee.mentions
  | .display inner => inner.mentions
  | .key inner => inner.mentions

/-- What several selectors mention. -/
def Selector.allMentions : List Selector → List Mention
  | [] => []
  | s :: ss => s.mentions ++ Selector.allMentions ss

/-- What a function mentions. -/
def Function.mentions : Function → List Mention
  | .constant value => value.mentions
  | .sameKey key => key.mentions
  | _ => []

end

/-! ## Regions -/

/-- Places, and the attributes that setters write. -/
structure Region where
  places : Set Place
  written : Set String

instance : Membership Place Region := ⟨fun region p => p ∈ region.places⟩

@[simp] theorem Region.mem_mk {places : Set Place} {written : Set String} {p : Place} :
    p ∈ (⟨places, written⟩ : Region) ↔ p ∈ places := Iff.rfl

/-- Whether what is mentioned belongs to a region. -/
def Mention.In (region : Region) : Mention → Prop
  | .place p => p ∈ region
  | .written name => name ∈ region.written

/-- Whether a value mentions what belongs to a region only. -/
def Value.Within (region : Region) (v : Value) : Prop := ∀ m ∈ v.mentions, m.In region

/-- Whether a selector mentions what belongs to a region only. -/
def Selector.Within (region : Region) (s : Selector) : Prop := ∀ m ∈ s.mentions, m.In region

/-- Whether a function mentions what belongs to a region only. -/
def Function.Within (region : Region) (f : Function) : Prop := ∀ m ∈ f.mentions, m.In region

/-- Whether a setter writes attributes of a region only. -/
def Setter.Within (region : Region) (s : Setter) : Prop := ∀ name ∈ s.names, name ∈ region.written

section

variable {region : Region}

/-- Several values are within a region where each is. -/
theorem forall_allMentions {vs : List Value} :
    (∀ m ∈ Value.allMentions vs, m.In region) ↔ ∀ v ∈ vs, v.Within region := by
  induction vs with
  | nil => simp [Value.allMentions]
  | cons v vs ih => simp only [Value.allMentions, List.forall_mem_append, ih, List.forall_mem_cons,
      Value.Within]

/-- Several selectors are within a region where each is. -/
theorem forall_allMentions_selector {ss : List Selector} :
    (∀ m ∈ Selector.allMentions ss, m.In region) ↔ ∀ s ∈ ss, s.Within region := by
  induction ss with
  | nil => simp [Selector.allMentions]
  | cons s ss ih => simp only [Selector.allMentions, List.forall_mem_append, ih,
      List.forall_mem_cons, Selector.Within]

/-- Several setters are within a region where each is. -/
theorem forall_allNames {ss : List Setter} :
    (∀ name ∈ Setter.allNames ss, name ∈ region.written) ↔ ∀ s ∈ ss, s.Within region := by
  induction ss with
  | nil => simp [Setter.allNames]
  | cons s ss ih => simp only [Setter.allNames, List.forall_mem_append, ih, List.forall_mem_cons,
      Setter.Within]

/-- What is mentioned belongs to every larger region. -/
theorem Mention.In.mono {larger : Region} {m : Mention} (hm : m.In region)
    (hplaces : region.places ⊆ larger.places) (hwritten : region.written ⊆ larger.written) :
    m.In larger := by
  cases m with
  | place p => exact hplaces hm
  | written name => exact hwritten hm

/-- A value within a region is within every larger one. -/
theorem Value.Within.mono {larger : Region} {v : Value} (hv : v.Within region)
    (hplaces : region.places ⊆ larger.places) (hwritten : region.written ⊆ larger.written) :
    v.Within larger := fun m hm => (hv m hm).mono hplaces hwritten

namespace Setter

@[simp] theorem within_path {text : String} {names : List String} :
    (path text names).Within region ↔ ∀ name ∈ names.getLast?, name ∈ region.written := by
  simp [Within, Setter.names]

@[simp] theorem within_composite {parts : List Setter} :
    (composite parts).Within region ↔ ∀ s ∈ parts, s.Within region := forall_allNames

end Setter

namespace Value

@[simp] theorem within_null : null.Within region := List.forall_mem_nil _

@[simp] theorem within_bool (b : Bool) : (bool b).Within region := List.forall_mem_nil _

@[simp] theorem within_int (n : Int) : (int n).Within region := List.forall_mem_nil _

@[simp] theorem within_float (x : Number.Binary64) : (float x).Within region :=
  List.forall_mem_nil _

@[simp] theorem within_nan (tag : Tag) : (nan tag).Within region := List.forall_mem_nil _

@[simp] theorem within_str (s : String) : (str s).Within region := List.forall_mem_nil _

@[simp] theorem within_setter {s : Setter} : (setter s).Within region ↔ s.Within region :=
  List.forall_mem_map

@[simp] theorem within_list {tag : Tag} {items : List Value} :
    (list tag items).Within region ↔ ∀ v ∈ items, v.Within region := forall_allMentions

@[simp] theorem within_tuple {items : List Value} :
    (tuple items).Within region ↔ ∀ v ∈ items, v.Within region := forall_allMentions

@[simp] theorem within_row {tag : Tag} {type : RecordType} {items : List Value} :
    (row tag type items).Within region ↔ ∀ v ∈ items, v.Within region := forall_allMentions

@[simp] theorem within_set {frozen : Bool} {items : List Value} :
    (set frozen items).Within region ↔ ∀ v ∈ items, v.Within region := forall_allMentions

@[simp] theorem within_mapping {address : Nat} :
    (mapping address).Within region ↔ Place.mapping address ∈ region :=
  List.forall_mem_singleton

@[simp] theorem within_object {address : Nat} :
    (object address).Within region ↔ Place.object address ∈ region :=
  List.forall_mem_singleton

@[simp] theorem within_function {tag : Tag} {body : Function} :
    (function tag body).Within region ↔ body.Within region := Iff.rfl

@[simp] theorem within_selector {s : Selector} :
    (selector s).Within region ↔ s.Within region := Iff.rfl

@[simp] theorem within_target {s : Selector} {assign : Option Setter} :
    (target s assign).Within region ↔ s.Within region ∧ ∀ a ∈ assign, a.Within region := by
  cases assign <;> simp [Within, mentions, Selector.Within, Setter.Within, Mention.In, or_imp,
    forall_and]

end Value

namespace Selector

@[simp] theorem within_path (text : String) (names : List String) :
    (path text names).Within region := List.forall_mem_nil _

@[simp] theorem within_composite {parts : List Selector} :
    (composite parts).Within region ↔ ∀ s ∈ parts, s.Within region := forall_allMentions_selector

@[simp] theorem within_computed {text : String} {callee : Value} :
    (computed text callee).Within region ↔ callee.Within region := Iff.rfl

@[simp] theorem within_display {inner : Selector} :
    (display inner).Within region ↔ inner.Within region := Iff.rfl

@[simp] theorem within_key {inner : Selector} : (key inner).Within region ↔ inner.Within region :=
  Iff.rfl

end Selector

namespace Function

@[simp] theorem within_constant {value : Value} :
    (constant value).Within region ↔ value.Within region := Iff.rfl

@[simp] theorem within_sameKey {key : Selector} :
    (sameKey key).Within region ↔ key.Within region := Iff.rfl

end Function

end

/-! ## Contents -/

namespace Store

/-- The values that the mapping or object at a place holds. -/
def contents (σ : Store) : Place → List Value
  | .mapping address => (σ.entries address).flatMap fun entry => [entry.1, entry.2]
  | .object address => (σ.object address).attributes.map Prod.snd

/-- Whether the contents of the places of a region mention places of the region only. -/
def Closed (σ : Store) (region : Region) : Prop :=
  ∀ p ∈ region, ∀ v ∈ σ.contents p, v.Within region

section

variable {σ : Store} {region : Region}

/-- In a closed region, the entries of a mapping are within it. -/
theorem Closed.entry (h : σ.Closed region) {address : Nat} (haddress : Place.mapping address ∈ region)
    {entry : Value × Value} (hentry : entry ∈ σ.entries address) :
    entry.1.Within region ∧ entry.2.Within region := by
  have hcontents : ∀ v ∈ σ.contents (.mapping address), v.Within region := h _ haddress
  simp only [contents, List.mem_flatMap] at hcontents
  exact ⟨hcontents _ ⟨entry, hentry, by simp⟩, hcontents _ ⟨entry, hentry, by simp⟩⟩

/-- In a closed region, the attributes of an object are within it. -/
theorem Closed.attribute (h : σ.Closed region) {address : Nat}
    (haddress : Place.object address ∈ region) {name : String} {v : Value}
    (hv : (name, v) ∈ (σ.object address).attributes) : v.Within region :=
  h _ haddress v (List.mem_map.mpr ⟨(name, v), hv, rfl⟩)

/-- What is found under a name is among the attributes. -/
theorem mem_of_lookup {α : Type} {name : String} {a : α} {entries : List (String × α)}
    (h : entries.lookup name = some a) : (name, a) ∈ entries := by
  obtain ⟨before, after, rfl, -⟩ := List.lookup_eq_some_iff.mp h
  exact List.mem_append_right _ List.mem_cons_self

/-- In a closed region, the fields of an object are within it. -/
theorem Closed.fieldValues (h : σ.Closed region) {address : Nat}
    (haddress : Place.object address ∈ region) :
    ∀ v ∈ Store.fieldValues (σ.object address), v.Within region := by
  intro v hv
  obtain ⟨name, -, rfl⟩ := List.mem_map.mp hv
  cases hfound : (σ.object address).attributes.lookup name with
  | none => simp
  | some w => exact h.attribute haddress (mem_of_lookup hfound)

end

/-! ## The places of a store -/

/-- The places that a store has, with all attributes. -/
def all (σ : Store) : Region where
  places := {p | match p with
    | .mapping address => address < σ.mappings.size
    | .object address => address < σ.objects.size}
  written := Set.univ

/-- Places that a store does not have hold nothing. -/
theorem contents_of_notMem_all {σ : Store} {p : Place} (h : p ∉ σ.all) : σ.contents p = [] := by
  cases p with
  | mapping address =>
      have hout : σ.mappings.size ≤ address := Nat.le_of_not_lt h
      simp [contents, entries, hout]
  | object address =>
      have hout : σ.objects.size ≤ address := Nat.le_of_not_lt h
      simp [contents, object, hout, default, instInhabitedObject.default]

/-- A store that mentions no places that it does not have is closed in every larger region. -/
theorem Closed.of_all {σ : Store} {region : Region} (h : σ.Closed σ.all)
    (hplaces : σ.all.places ⊆ region.places) (hwritten : region.written = Set.univ) :
    σ.Closed region := by
  intro p _ v hv
  by_cases hp : p ∈ σ.all
  · exact (h p hp v hv).mono hplaces (by rw [hwritten]; exact fun _ _ => trivial)
  · simp [contents_of_notMem_all hp] at hv

/-! ## What values reach -/

/-- What some values reach: what they mention, and what the contents of places that they reach
mention. -/
inductive Reaches (σ : Store) (roots : List Value) : Mention → Prop where
  | root {v : Value} {m : Mention} (hv : v ∈ roots) (hm : m ∈ v.mentions) : σ.Reaches roots m
  | content {p : Place} {v : Value} {m : Mention} (hp : σ.Reaches roots (.place p))
    (hv : v ∈ σ.contents p) (hm : m ∈ v.mentions) : σ.Reaches roots m

/-- The region of what some values reach. -/
def reach (σ : Store) (roots : List Value) : Region where
  places := {p | σ.Reaches roots (.place p)}
  written := {name | σ.Reaches roots (.written name)}

section

variable {σ : Store} {region : Region} {roots : List Value}

/-- What is reached belongs to the region of what is reached. -/
theorem Reaches.in_reach {m : Mention} (h : σ.Reaches roots m) : m.In (σ.reach roots) := by
  cases m with
  | place p => exact h
  | written name => exact h

/-- The values are within what they reach. -/
theorem within_reach {v : Value} (hv : v ∈ roots) : v.Within (σ.reach roots) :=
  fun _ hm => (Reaches.root hv hm).in_reach

/-- What values reach is closed. -/
theorem closed_reach (σ : Store) (roots : List Value) : σ.Closed (σ.reach roots) :=
  fun _ hp _ hv _ hm => (Reaches.content hp hv hm).in_reach

/-- Values within a closed region reach nothing else. -/
theorem Reaches.in_closed (hclosed : σ.Closed region) (hroots : ∀ v ∈ roots, v.Within region)
    {m : Mention} (h : σ.Reaches roots m) : m.In region := by
  induction h with
  | root hv hm => exact hroots _ hv _ hm
  | content _ hv hm hp => exact hclosed _ hp _ hv _ hm

end

/-! ## Stores that agree on a region -/

/-- Whether two stores agree on a closed region, and on the tags that are not in use. -/
structure Agree (region : Region) (σ σ' : Store) : Prop where
  mappings_size : σ'.mappings.size = σ.mappings.size
  objects_size : σ'.objects.size = σ.objects.size
  entries_eq : ∀ address, Place.mapping address ∈ region → σ'.entries address = σ.entries address
  object_eq : ∀ address, Place.object address ∈ region → σ'.object address = σ.object address
  nextTag_eq : σ'.nextTag = σ.nextTag
  closed : σ.Closed region

namespace Agree

variable {σ σ' σ'' : Store} {region : Region}

/-- Agreeing stores have the same contents in the region. -/
theorem contents_eq (h : σ.Agree region σ') {p : Place} (hp : p ∈ region) :
    σ'.contents p = σ.contents p := by
  cases p with
  | mapping address => rw [contents, contents, h.entries_eq address hp]
  | object address => rw [contents, contents, h.object_eq address hp]

/-- The region is closed in both. -/
theorem closed_right (h : σ.Agree region σ') : σ'.Closed region := by
  intro p hp v hv
  rw [h.contents_eq hp] at hv
  exact h.closed p hp v hv

/-- Every store agrees with itself on a closed region. -/
theorem refl (h : σ.Closed region) : σ.Agree region σ :=
  ⟨rfl, rfl, fun _ _ => rfl, fun _ _ => rfl, rfl, h⟩

/-- Agreement goes both ways. -/
theorem symm (h : σ.Agree region σ') : σ'.Agree region σ where
  mappings_size := h.mappings_size.symm
  objects_size := h.objects_size.symm
  entries_eq address haddress := (h.entries_eq address haddress).symm
  object_eq address haddress := (h.object_eq address haddress).symm
  nextTag_eq := h.nextTag_eq.symm
  closed := h.closed_right

/-- Agreement carries over. -/
theorem trans (h : σ.Agree region σ') (h' : σ'.Agree region σ'') : σ.Agree region σ'' where
  mappings_size := h'.mappings_size.trans h.mappings_size
  objects_size := h'.objects_size.trans h.objects_size
  entries_eq address haddress :=
    (h'.entries_eq address haddress).trans (h.entries_eq address haddress)
  object_eq address haddress := (h'.object_eq address haddress).trans (h.object_eq address haddress)
  nextTag_eq := h'.nextTag_eq.trans h.nextTag_eq
  closed := h.closed

/-- Agreeing stores bound the visits of places alike. -/
theorem nesting_eq (h : σ.Agree region σ') : σ'.nesting = σ.nesting := by
  rw [nesting, nesting, h.mappings_size, h.objects_size]

end Agree

end Store

end Rubric
