import Mathlib.Data.List.Perm.Basic
import Rubric.Proofs.Classification
import Rubric.Proofs.Record.ShapePaths

/-!
# Shapes and the order of samples

Every entry of a sample shows an attribute, by the text of its key, and some children, by the texts of
the keys of its value.  The shape of samples lists the attributes that they show, each once and in the
order in which they are first seen, and likewise the children of each, whichever samples show them.  So
another order of the samples changes the order of attributes and children only, and further samples only
add to the end.

* `attributesOf` : the attributes that some sightings come to;
* `RecordShape.ofSamples_eq` : the shape of samples is that of their sightings;
* `RecordShape.shape_up_to_sample_order` : what other orders and further samples change.
-/

namespace Rubric

open noteAttribute

/-! ## Names in the order of their first use -/

variable {name : String} {names names' : List String}

/-- Going through names keeps each where it is first seen. -/
theorem foldl_noteName (seen names : List String) :
    names.foldl noteName seen.eraseDups = (seen ++ names).eraseDups := by
  induction names generalizing seen with
  | nil => rw [List.append_nil]; rfl
  | cons first names ih =>
      have hfirst : noteName seen.eraseDups first = (seen ++ [first]).eraseDups := by
        rw [noteName, eraseDups_append_singleton]
        simp only [List.contains_iff_mem, List.mem_eraseDups]
      rw [List.foldl_cons, hfirst, ih, List.append_assoc, List.singleton_append]

/-- Further names add to the end. -/
theorem eraseDups_prefix_append (names more : List String) :
    names.eraseDups <+: (names ++ more).eraseDups := by
  rw [List.eraseDups_append]
  exact List.prefix_append _ _

/-- The same names, listed otherwise, are first seen in another order. -/
theorem eraseDups_perm (h : ∀ name, name ∈ names ↔ name ∈ names') :
    names.eraseDups.Perm names'.eraseDups := by
  rw [List.perm_ext_iff_of_nodup (nodup_eraseDups names) (nodup_eraseDups names')]
  intro name
  rw [List.mem_eraseDups, List.mem_eraseDups, h]

/-! ## Sightings of attributes -/

/-- An attribute that an entry shows, with the children that it shows. -/
abbrev Sighting := String × List String

/-- The children of an attribute in some sightings. -/
def childrenIn (sightings : List Sighting) (name : String) : List String :=
  (sightings.filter fun m => m.1 == name).flatMap Prod.snd

/-- An attribute with its children in some sightings, each once. -/
def attributeIn (sightings : List Sighting) (name : String) : Attribute :=
  ⟨name, (childrenIn sightings name).eraseDups⟩

/-- The attributes that some sightings come to, each once. -/
def attributesOf (sightings : List Sighting) : List Attribute :=
  (sightings.map Prod.fst).eraseDups.map (attributeIn sightings)

variable {sightings sightings' : List Sighting}

@[simp] theorem map_name_attributesOf (sightings : List Sighting) :
    (attributesOf sightings).map Attribute.name = (sightings.map Prod.fst).eraseDups := by
  rw [attributesOf, List.map_map]
  exact List.map_id _

/-- The children of an attribute are those of its sightings. -/
theorem mem_childrenIn {child : String} :
    child ∈ childrenIn sightings name ↔ ∃ m ∈ sightings, m.1 = name ∧ child ∈ m.2 := by
  simp [childrenIn, List.mem_flatMap, and_assoc]

theorem childrenIn_append (sightings more : List Sighting) (name : String) :
    childrenIn (sightings ++ more) name = childrenIn sightings name ++ childrenIn more name := by
  rw [childrenIn, List.filter_append, List.flatMap_append, childrenIn, childrenIn]

/-- An attribute that is not seen has no children. -/
theorem childrenIn_eq_nil (h : name ∉ sightings.map Prod.fst) : childrenIn sightings name = [] := by
  refine List.eq_nil_iff_forall_not_mem.mpr fun child hchild => ?_
  obtain ⟨m, hm, rfl, -⟩ := mem_childrenIn.mp hchild
  exact h (List.mem_map_of_mem hm)

/-! ## One sighting after the other -/

/-- Noting an attribute adds children to those of the name, or a new attribute at the end. -/
theorem noteAttribute_map {f : String → Attribute} (hf : ∀ n, (f n).name = n) (children : List String)
    (hnodup : names.Nodup) :
    noteAttribute name children (names.map f) =
      if name ∈ names then
        names.map fun n => if n = name then ⟨n, children.foldl noteName (f n).children⟩ else f n
      else names.map f ++ [⟨name, children.foldl noteName []⟩] := by
  induction names with
  | nil => rfl
  | cons first names ih =>
      obtain ⟨hfirst, hrest⟩ := List.nodup_cons.mp hnodup
      rw [List.map_cons, noteAttribute, hf]
      by_cases hname : first = name
      · subst hname
        -- the attributes behind have other names
        have hkept : names.map (fun n => if n = first then
            ⟨n, children.foldl noteName (f n).children⟩ else f n) = names.map f := by
          refine List.map_congr_left fun n hn => if_neg ?_
          rintro rfl
          exact hfirst hn
        rw [if_pos rfl, if_pos List.mem_cons_self, List.map_cons, if_pos rfl, hkept]
      · rw [if_neg hname, ih hrest]
        by_cases hmem : name ∈ names
        · rw [if_pos hmem, if_pos (List.mem_cons_of_mem first hmem), List.map_cons, if_neg hname]
        · have hnot : name ∉ first :: names := by simp [hmem, Ne.symm hname]
          rw [if_neg hmem, if_neg hnot, List.cons_append]

/-- One sighting more. -/
theorem attributesOf_concat (sightings : List Sighting) (m : Sighting) :
    attributesOf (sightings ++ [m]) = noteAttribute m.1 m.2 (attributesOf sightings) := by
  have hsame : childrenIn (sightings ++ [m]) m.1 = childrenIn sightings m.1 ++ m.2 := by
    rw [childrenIn_append]
    simp [childrenIn]
  have hother : ∀ n, n ≠ m.1 → attributeIn (sightings ++ [m]) n = attributeIn sightings n := by
    intro n hn
    rw [attributeIn, childrenIn_append, attributeIn]
    simp [childrenIn, Ne.symm hn]
  rw [attributesOf, List.map_append, List.map_singleton, eraseDups_append_singleton, attributesOf,
    noteAttribute_map (fun _ => rfl) m.2 (nodup_eraseDups _)]
  simp only [List.mem_eraseDups]
  by_cases hmem : m.1 ∈ sightings.map Prod.fst
  · -- seen before: its children go behind those of the earlier sightings
    rw [if_pos hmem, if_pos hmem]
    refine List.map_congr_left fun n _ => ?_
    by_cases hn : n = m.1
    · rw [if_pos hn, hn, attributeIn, hsame, attributeIn, foldl_noteName]
    · rw [if_neg hn, hother n hn]
  · -- not seen before: it makes the last attribute
    rw [if_neg hmem, if_neg hmem, List.map_append, List.map_singleton]
    have hnew : attributeIn (sightings ++ [m]) m.1 = ⟨m.1, m.2.foldl noteName []⟩ := by
      rw [attributeIn, hsame, childrenIn_eq_nil hmem]
      exact congrArg (Attribute.mk m.1) (foldl_noteName [] m.2).symm
    rw [hnew]
    congr 1
    refine List.map_congr_left fun n hn => hother n ?_
    rintro rfl
    exact hmem (List.mem_eraseDups.mp hn)

/-! ## Sightings in another order, and more of them -/

/-- The attributes have the same children, up to their order. -/
theorem children_perm (h : sightings.Perm sightings') (name : String) :
    (attributeIn sightings name).children.Perm (attributeIn sightings' name).children :=
  eraseDups_perm fun child => by simp only [mem_childrenIn, h.mem_iff]

/-- Further sightings add children to the end. -/
theorem children_prefix (sightings more : List Sighting) (name : String) :
    (attributeIn sightings name).children <+: (attributeIn (sightings ++ more) name).children := by
  rw [attributeIn, attributeIn, childrenIn_append]
  exact eraseDups_prefix_append _ _

namespace Attribute

/-- Attributes of one name whose children are the same up to their order. -/
def Alike (a b : Attribute) : Prop := a.name = b.name ∧ a.children.Perm b.children

variable {a b : Attribute}

/-- They are both composite or both not. -/
theorem Alike.isComposite_eq (h : a.Alike b) : a.isComposite = b.isComposite := by
  rw [isComposite, isComposite, h.2.length_eq]

/-- They have the same flattened names, up to their order. -/
theorem Alike.flattened (h : a.Alike b) : a.flattened.Perm b.flattened := by
  rw [Attribute.flattened, Attribute.flattened, h.isComposite_eq, h.1]
  split
  · exact h.2.map _
  · exact .refl _

end Attribute

theorem alike_attributeIn (h : sightings.Perm sightings') (name : String) :
    (attributeIn sightings name).Alike (attributeIn sightings' name) := ⟨rfl, children_perm h name⟩

/-! ## Flattened names -/

/-- Names are different exactly where none occurs earlier. -/
theorem firstRepeated_eq_none_iff {seen : List String} :
    firstRepeated seen names = none ↔ names.Nodup ∧ ∀ name ∈ names, name ∉ seen := by
  refine ⟨nodup_of_firstRepeated, ?_⟩
  induction names generalizing seen with
  | nil => exact fun _ => rfl
  | cons first names ih =>
      rintro ⟨hnodup, hapart⟩
      obtain ⟨hfirst, hrest⟩ := List.nodup_cons.mp hnodup
      have hnew : ¬ seen.contains first = true := by simpa using hapart first List.mem_cons_self
      rw [firstRepeated, if_neg hnew]
      refine ih ⟨hrest, fun name hname hseen => ?_⟩
      rcases List.mem_cons.mp hseen with rfl | hseen
      · exact hfirst hname
      · exact hapart name (.tail first hname) hseen

namespace RecordShape

/-- A shape can be flattened exactly where no two of its names coincide. -/
theorem flatten_eq_ok_iff {shape : RecordShape} {flat : List (String × List String)} :
    shape.flatten = .ok flat ↔ (shape.allNames.map Prod.fst).Nodup ∧ flat = shape.allNames := by
  constructor
  · intro h
    have hall := eq_allNames_of_flatten h
    exact ⟨hall ▸ nodup_of_flatten h, hall⟩
  · rintro ⟨hnodup, rfl⟩
    rw [flatten, firstRepeated_eq_none_iff.mpr ⟨hnodup, fun _ _ => List.not_mem_nil⟩]

/-- A shape two of whose names coincide cannot be flattened. -/
theorem exists_flatten_error {shape : RecordShape} (h : ¬ (shape.allNames.map Prod.fst).Nodup) :
    ∃ fault, shape.flatten = .error fault := by
  cases hflat : shape.flatten with
  | error fault => exact ⟨fault, rfl⟩
  | ok flat => exact absurd (flatten_eq_ok_iff.mp hflat).1 h

/-- Shapes that differ in the order of attributes and children only. -/
structure IsReordered (s t : RecordShape) : Prop where
  names : s.attributeNames.Perm t.attributeNames
  children : ∀ a ∈ s.attributes, ∃ b, t.attribute? a.name = some b ∧ a.children.Perm b.children
  composite : ∀ a ∈ s.attributes, ∀ b ∈ t.attributes, a.name = b.name → a.isComposite = b.isComposite
  /-- Flattening fails for both, or gives the same names with the same paths. -/
  flat : (∃ fault fault', s.flatten = .error fault ∧ t.flatten = .error fault') ∨
    ∃ flat flat', s.flatten = .ok flat ∧ t.flatten = .ok flat' ∧ flat.Perm flat'

/-- A shape that adds attributes to the end of another's, and children to the end of theirs. -/
structure IsExtendedBy (s t : RecordShape) : Prop where
  names : s.attributeNames <+: t.attributeNames
  children : ∀ a ∈ s.attributes, ∃ b, t.attribute? a.name = some b ∧ a.children <+: b.children

/-- The shape that some sightings come to. -/
def ofSightings (sightings : List Sighting) : RecordShape := ⟨"dict", attributesOf sightings⟩

@[simp] theorem attributeNames_ofSightings (sightings : List Sighting) :
    (ofSightings sightings).attributeNames = (sightings.map Prod.fst).eraseDups :=
  map_name_attributesOf sightings

/-- An attribute of the shape is one that is seen, with its children there. -/
theorem mem_ofSightings {a : Attribute} :
    a ∈ (ofSightings sightings).attributes ↔
      a.name ∈ sightings.map Prod.fst ∧ a = attributeIn sightings a.name := by
  show a ∈ attributesOf sightings ↔ _
  rw [attributesOf, List.mem_map]
  constructor
  · rintro ⟨name, hname, rfl⟩
    exact ⟨List.mem_eraseDups.mp hname, rfl⟩
  · rintro ⟨hname, ha⟩
    exact ⟨a.name, List.mem_eraseDups.mpr hname, ha.symm⟩

/-- An attribute that is seen is found under its name. -/
theorem attribute?_ofSightings (h : name ∈ sightings.map Prod.fst) :
    (ofSightings sightings).attribute? name = some (attributeIn sightings name) := by
  cases hfound : (ofSightings sightings).attribute? name with
  | none =>
      have hmem : attributeIn sightings name ∈ (ofSightings sightings).attributes :=
        mem_ofSightings.mpr ⟨h, rfl⟩
      have hnone := List.find?_eq_none.mp hfound _ hmem
      exact absurd (beq_self_eq_true name) hnone
  | some a =>
      obtain ⟨ha, rfl⟩ := mem_of_attribute? hfound
      rw [← (mem_ofSightings.mp ha).2]

/-- Sightings in another order. -/
theorem isReordered_ofSightings (h : sightings.Perm sightings') :
    (ofSightings sightings).IsReordered (ofSightings sightings') where
  names := by
    rw [attributeNames_ofSightings, attributeNames_ofSightings]
    exact eraseDups_perm fun name => (h.map Prod.fst).mem_iff
  children a ha := by
    obtain ⟨hname, heq⟩ := mem_ofSightings.mp ha
    refine ⟨_, attribute?_ofSightings ((h.map Prod.fst).mem_iff.mp hname), ?_⟩
    rw [heq]
    exact children_perm h a.name
  composite a ha b hb hname := by
    rw [(mem_ofSightings.mp ha).2, (mem_ofSightings.mp hb).2, ← hname]
    exact (alike_attributeIn h a.name).isComposite_eq
  flat := by
    have hperm : (ofSightings sightings).allNames.Perm (ofSightings sightings').allNames := by
      show ((attributesOf sightings).flatMap _).Perm ((attributesOf sightings').flatMap _)
      rw [attributesOf, attributesOf, List.flatMap_map, List.flatMap_map]
      exact (eraseDups_perm fun name => (h.map Prod.fst).mem_iff).flatMap
        fun name _ => (alike_attributeIn h name).flattened
    -- whether two names coincide does not depend on their order
    by_cases hnodup : ((ofSightings sightings).allNames.map Prod.fst).Nodup
    · have hnodup' := ((hperm.map Prod.fst).nodup_iff).mp hnodup
      exact .inr ⟨_, _, flatten_eq_ok_iff.mpr ⟨hnodup, rfl⟩, flatten_eq_ok_iff.mpr ⟨hnodup', rfl⟩, hperm⟩
    · have hnodup' := mt ((hperm.map Prod.fst).nodup_iff).mpr hnodup
      obtain ⟨fault, hfault⟩ := exists_flatten_error hnodup
      obtain ⟨fault', hfault'⟩ := exists_flatten_error hnodup'
      exact .inl ⟨fault, fault', hfault, hfault'⟩

/-- Further sightings. -/
theorem isExtendedBy_ofSightings (sightings more : List Sighting) :
    (ofSightings sightings).IsExtendedBy (ofSightings (sightings ++ more)) where
  names := by
    rw [attributeNames_ofSightings, attributeNames_ofSightings, List.map_append]
    exact eraseDups_prefix_append _ _
  children a ha := by
    obtain ⟨hname, heq⟩ := mem_ofSightings.mp ha
    have hkept : a.name ∈ (sightings ++ more).map Prod.fst := by
      rw [List.map_append]
      exact List.mem_append_left _ hname
    refine ⟨_, attribute?_ofSightings hkept, ?_⟩
    rw [heq]
    exact children_prefix sightings more a.name

/-! ## Sightings in samples -/

end RecordShape

/-- What an entry shows. -/
def sighting (σ : Store) (entry : Value × Value) : Sighting :=
  (entry.1.text σ, childNames σ entry.2)

/-- What a sample shows, entry by entry. -/
def sightingsIn (σ : Store) : Value → List Sighting
  | .mapping address => (σ.entries address).map (sighting σ)
  | _ => []

/-- Whether a value is a mapping. -/
def Value.IsMapping (v : Value) : Prop := ∃ address, v = .mapping address

variable {σ : Store} {samples more : List Value}

/-- Noting a sample adds what it shows. -/
theorem noteSample_attributesOf (entries : List (Value × Value)) :
    ∀ sightings, noteSample σ (attributesOf sightings) entries =
      attributesOf (sightings ++ entries.map (sighting σ)) := by
  induction entries with
  | nil => intro sightings; rw [List.map_nil, List.append_nil]; rfl
  | cons entry entries ih =>
      intro sightings
      show noteSample σ (noteAttribute (sighting σ entry).1 (sighting σ entry).2 (attributesOf sightings))
        entries = _
      rw [← attributesOf_concat, ih, List.map_cons, List.append_assoc, List.singleton_append]

/-- Noting samples adds what they show. -/
theorem noteSamples_attributesOf (h : ∀ v ∈ samples, v.IsMapping) :
    ∀ index sightings, noteSamples σ index (attributesOf sightings) samples =
      .ok (attributesOf (sightings ++ samples.flatMap (sightingsIn σ))) := by
  induction samples with
  | nil => intro index sightings; rw [List.flatMap_nil, List.append_nil, noteSamples]
  | cons sample samples ih =>
      intro index sightings
      obtain ⟨⟨address, rfl⟩, hrest⟩ := List.forall_mem_cons.mp h
      rw [noteSamples, noteSample_attributesOf, ih hrest, List.flatMap_cons, List.append_assoc]
      rfl

/-- An attribute is seen in samples where the text of a key is its name. -/
theorem mem_sightings {s : Sighting} (h : ∀ v ∈ samples, v.IsMapping) :
    s ∈ samples.flatMap (sightingsIn σ) ↔
      ∃ address, .mapping address ∈ samples ∧ ∃ entry ∈ σ.entries address, sighting σ entry = s := by
  rw [List.mem_flatMap]
  constructor
  · rintro ⟨sample, hsample, hs⟩
    obtain ⟨address, rfl⟩ := h sample hsample
    exact ⟨address, hsample, List.mem_map.mp hs⟩
  · rintro ⟨address, hsample, hs⟩
    exact ⟨_, hsample, List.mem_map.mpr hs⟩

/-- The children that an entry shows are the texts of the keys of its value. -/
theorem mem_childNames {v : Value} {child : String} :
    child ∈ childNames σ v ↔
      ∃ address, v = .mapping address ∧ ∃ entry ∈ σ.entries address, entry.1.text σ = child := by
  cases v <;> simp [childNames]

namespace RecordShape

/-- The shape of samples is that of what they show. -/
theorem ofSamples_eq (hne : samples ≠ []) (h : ∀ v ∈ samples, v.IsMapping) :
    ofSamples σ samples = .ok (ofSightings (samples.flatMap (sightingsIn σ))) := by
  have hsome : ¬ samples.isEmpty = true := by simpa using hne
  have hnoted := noteSamples_attributesOf (σ := σ) h 0 []
  rw [List.nil_append] at hnoted
  rw [ofSamples, if_neg hsome]
  exact congrArg (Except.map _) hnoted

/-- Whether a shape lists what some samples show: as attributes the texts of their keys, as children of
each the texts of the keys of the mappings under it, and none twice. -/
structure Describes (shape : RecordShape) (σ : Store) (samples : List Value) : Prop where
  names : ∀ name, name ∈ shape.attributeNames ↔
    ∃ address, .mapping address ∈ samples ∧ ∃ entry ∈ σ.entries address, entry.1.text σ = name
  children : ∀ a ∈ shape.attributes, ∀ child, child ∈ a.children ↔
    ∃ address, .mapping address ∈ samples ∧ ∃ entry ∈ σ.entries address, entry.1.text σ = a.name ∧
      ∃ inner, entry.2 = .mapping inner ∧ ∃ part ∈ σ.entries inner, part.1.text σ = child
  distinct : shape.attributeNames.Nodup ∧ ∀ a ∈ shape.attributes, a.children.Nodup

/-- The shape of samples lists what they show. -/
theorem describes_ofSightings (h : ∀ v ∈ samples, v.IsMapping) :
    (ofSightings (samples.flatMap (sightingsIn σ))).Describes σ samples where
  names name := by
    rw [attributeNames_ofSightings, List.mem_eraseDups, List.mem_map]
    constructor
    · rintro ⟨s, hs, rfl⟩
      obtain ⟨address, hsample, entry, hentry, rfl⟩ := (mem_sightings h).mp hs
      exact ⟨address, hsample, entry, hentry, rfl⟩
    · rintro ⟨address, hsample, entry, hentry, rfl⟩
      exact ⟨_, (mem_sightings h).mpr ⟨address, hsample, entry, hentry, rfl⟩, rfl⟩
  children a ha child := by
    rw [(mem_ofSightings.mp ha).2, attributeIn, List.mem_eraseDups, mem_childrenIn]
    constructor
    · rintro ⟨s, hs, hname, hchild⟩
      obtain ⟨address, hsample, entry, hentry, rfl⟩ := (mem_sightings h).mp hs
      exact ⟨address, hsample, entry, hentry, hname, mem_childNames.mp hchild⟩
    · rintro ⟨address, hsample, entry, hentry, hname, hchild⟩
      exact ⟨_, (mem_sightings h).mpr ⟨address, hsample, entry, hentry, rfl⟩, hname,
        mem_childNames.mpr hchild⟩
  distinct := by
    refine ⟨attributeNames_ofSightings _ ▸ nodup_eraseDups _, fun a ha => ?_⟩
    rw [(mem_ofSightings.mp ha).2]
    exact nodup_eraseDups _

/-- Mappings, one or more, have a shape, which lists what they show.  In any other order they have a shape
with the same attributes and, for each, the same children, that differs in the order of these only; so the
same attributes are composite, and flattening fails for both or gives the same names with the same paths.
With further samples at the end the attributes keep their names and their order and come first, and so do
the children of each. -/
theorem shape_up_to_sample_order (hne : samples ≠ []) (h : ∀ v ∈ samples, v.IsMapping) :
    ∃ s, ofSamples σ samples = .ok s ∧ s.Describes σ samples ∧
      (∀ reordered, samples.Perm reordered → ∃ t, ofSamples σ reordered = .ok t ∧ s.IsReordered t) ∧
      ∀ more, (∀ v ∈ more, v.IsMapping) →
        ∃ t, ofSamples σ (samples ++ more) = .ok t ∧ s.IsExtendedBy t := by
  refine ⟨_, ofSamples_eq hne h, describes_ofSightings h, ?_, ?_⟩
  · intro reordered hperm
    have hne' : reordered ≠ [] := by
      rintro rfl
      exact hne hperm.eq_nil
    have h' : ∀ v ∈ reordered, v.IsMapping := fun v hv => h v (hperm.mem_iff.mpr hv)
    exact ⟨_, ofSamples_eq hne' h', isReordered_ofSightings (hperm.flatMap_right _)⟩
  · intro more hmore
    have hall : ∀ v ∈ samples ++ more, v.IsMapping := by
      intro v hv
      rcases List.mem_append.mp hv with hv | hv
      · exact h v hv
      · exact hmore v hv
    have hextended := isExtendedBy_ofSightings (samples.flatMap (sightingsIn σ)) (more.flatMap (sightingsIn σ))
    rw [← List.flatMap_append] at hextended
    exact ⟨_, ofSamples_eq (List.append_ne_nil_of_left_ne_nil hne more) hall, hextended⟩

/-- A store with the samples `{1: 0, "b": {"x": 1, "y": 2}}` and `{"c": 3, "1": 2, "b": 5}`, at the first
and at the last address. -/
def sampleStore : Store :=
  ⟨#[[(.int 1, .int 0), (.str "b", .mapping 1)], [(.str "x", .int 1), (.str "y", .int 2)],
    [(.str "c", .int 3), (.str "1", .int 2), (.str "b", .int 5)]], #[], 0, ⟨0, none, 0⟩⟩

/-- Two samples that share an attribute under different keys, and another that is a mapping in one of them
only. -/
theorem shape_up_to_sample_order_shared :
    ∃ s t, ofSamples sampleStore [.mapping 0, .mapping 2] = .ok s ∧
      ofSamples sampleStore [.mapping 2, .mapping 0] = .ok t ∧ s.IsReordered t ∧
      s.attributes = [⟨"1", []⟩, ⟨"b", ["x", "y"]⟩, ⟨"c", []⟩] ∧ t.attributeNames = ["c", "1", "b"] := by
  have hmappings : ∀ v ∈ [Value.mapping 0, .mapping 2], v.IsMapping := by
    intro v hv
    simp only [List.mem_cons, List.not_mem_nil, or_false] at hv
    rcases hv with rfl | rfl
    · exact ⟨0, rfl⟩
    · exact ⟨2, rfl⟩
  obtain ⟨s, hs, -, hreordered, -⟩ :=
    shape_up_to_sample_order (σ := sampleStore) (List.cons_ne_nil _ _) hmappings
  obtain ⟨t, ht, hst⟩ := hreordered _ (List.Perm.swap _ _ [])
  refine ⟨s, t, hs, ht, hst, ?_, ?_⟩
  · have hshape : ofSamples sampleStore [.mapping 0, .mapping 2] =
        .ok ⟨"dict", [⟨"1", []⟩, ⟨"b", ["x", "y"]⟩, ⟨"c", []⟩]⟩ := by rfl
    rw [hs] at hshape
    cases hshape
    rfl
  · have hshape : ofSamples sampleStore [.mapping 2, .mapping 0] =
        .ok ⟨"dict", [⟨"c", []⟩, ⟨"1", []⟩, ⟨"b", ["x", "y"]⟩]⟩ := by rfl
    rw [ht] at hshape
    cases hshape
    rfl

end RecordShape

end Rubric
