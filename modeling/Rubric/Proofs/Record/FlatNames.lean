import Rubric.Proofs.Record.SampleOrder

/-!
# Flattened names of a shape

Joining the names of attributes and children may give one name twice: an attribute may be called what
another and its child come to, and a name may be cut into an attribute and a child at several places.  The
paths are never the same, so it is by the paths that the names of a shape are told apart.  Flattening fails
exactly where two paths get one name.  Otherwise it lists all paths, in the order of the shape, each with
its name.

* `Names` : which paths of a shape get which names;
* `Precedes` : the order of a shape on its paths;
* `Precedes.ne` : it is strict where attributes have different names, and the children of each;
* `flatten_outcome` : what flattening comes to.
-/

namespace Rubric.RecordShape

variable {s : RecordShape} {name : String} {path path' : List String}

/-! ## Names and paths -/

/-- Which paths of a shape get which names: an attribute with at most one child has its own name, and a
child of another attribute the two names joined. -/
inductive Names (s : RecordShape) : String → List String → Prop where
  | whole {a : Attribute} (ha : a ∈ s.attributes) (hfew : a.children.length ≤ 1) :
      Names s a.name [a.name]
  | child {a : Attribute} {c : String} (ha : a ∈ s.attributes) (hmany : 1 < a.children.length)
      (hc : c ∈ a.children) : Names s (a.name ++ "_" ++ c) [a.name, c]

/-- Whether a name is that of two paths. -/
def IsAmbiguous (s : RecordShape) (name : String) : Prop :=
  ∃ path path', path ≠ path' ∧ s.Names name path ∧ s.Names name path'

/-- Whether a path comes before another: that of an earlier attribute or of one of its children, or that of
an earlier child of the same attribute. -/
inductive Precedes (s : RecordShape) : List String → List String → Prop where
  | attributes {a b : Attribute} (hab : [a, b].Sublist s.attributes) (below below' : List String) :
      Precedes s (a.name :: below) (b.name :: below')
  | children {a : Attribute} {c d : String} (ha : a ∈ s.attributes) (hcd : [c, d].Sublist a.children) :
      Precedes s [a.name, c] [a.name, d]

/-- An attribute gives way to its children where it has several. -/
theorem isComposite_iff {a : Attribute} : a.isComposite = true ↔ 1 < a.children.length := decide_eq_true_iff

/-- The names of an attribute are those of its paths. -/
theorem names_of_mem_flattened {a : Attribute} (ha : a ∈ s.attributes) (h : (name, path) ∈ a.flattened) :
    s.Names name path := by
  rw [Attribute.flattened] at h
  split at h
  · rename_i hmany
    obtain ⟨c, hc, heq⟩ := List.mem_map.mp h
    cases heq
    exact .child ha (isComposite_iff.mp hmany) hc
  · rename_i hfew
    cases List.mem_singleton.mp h
    exact .whole ha (Nat.not_lt.mp (mt isComposite_iff.mpr hfew))

/-- The names of a shape are those of its paths. -/
theorem mem_allNames_iff : (name, path) ∈ s.allNames ↔ s.Names name path := by
  rw [allNames, List.mem_flatMap]
  constructor
  · rintro ⟨a, ha, hmem⟩
    exact names_of_mem_flattened ha hmem
  · intro h
    cases h with
    | @whole a ha hfew =>
        refine ⟨a, ha, ?_⟩
        rw [Attribute.flattened, if_neg (mt isComposite_iff.mp (Nat.not_lt.mpr hfew))]
        exact List.mem_singleton_self _
    | @child a c ha hmany hc =>
        refine ⟨a, ha, ?_⟩
        rw [Attribute.flattened, if_pos (isComposite_iff.mpr hmany)]
        exact List.mem_map.mpr ⟨c, hc, rfl⟩

/-- All paths of an attribute start with its name. -/
theorem exists_cons_of_mem_flattened {a : Attribute} (h : (name, path) ∈ a.flattened) :
    ∃ below, path = a.name :: below := by
  rw [Attribute.flattened] at h
  split at h
  · obtain ⟨c, -, heq⟩ := List.mem_map.mp h
    cases heq
    exact ⟨[c], rfl⟩
  · cases List.mem_singleton.mp h
    exact ⟨[], rfl⟩

/-! ## The order of a shape -/

/-- The paths of one attribute are listed in the order of its children. -/
theorem pairwise_flattened {a : Attribute} (ha : a ∈ s.attributes) :
    a.flattened.Pairwise fun entry later => s.Precedes entry.2 later.2 := by
  rw [Attribute.flattened]
  split
  · rw [List.pairwise_map, List.pairwise_iff_forall_sublist]
    intro c d hcd
    exact .children ha hcd
  · exact List.pairwise_singleton _ _

/-- The paths of a shape are listed in its order. -/
theorem pairwise_allNames (s : RecordShape) :
    s.allNames.Pairwise fun entry later => s.Precedes entry.2 later.2 := by
  rw [allNames, List.pairwise_flatMap]
  constructor
  · exact fun a ha => pairwise_flattened ha
  · rw [List.pairwise_iff_forall_sublist]
    rintro a b hab ⟨name, path⟩ hentry ⟨name', path'⟩ hlater
    obtain ⟨below, rfl⟩ := exists_cons_of_mem_flattened hentry
    obtain ⟨below', rfl⟩ := exists_cons_of_mem_flattened hlater
    exact .attributes hab below below'

section Distinct

variable (hattributes : s.attributeNames.Nodup) (hchildren : ∀ a ∈ s.attributes, a.children.Nodup)
include hattributes

/-- Attributes of one name are the same. -/
theorem eq_of_name_eq {a b : Attribute} (ha : a ∈ s.attributes) (hb : b ∈ s.attributes)
    (hname : a.name = b.name) : a = b := List.inj_on_of_nodup_map hattributes ha hb hname

include hchildren

/-- A path that comes before another is another one. -/
theorem Precedes.ne (h : s.Precedes path path') : path ≠ path' := by
  cases h with
  | attributes hab below below' =>
      intro heq
      have hnames := (hab.map Attribute.name).nodup hattributes
      exact (List.nodup_cons.mp hnames).1 (List.mem_singleton.mpr (List.cons.inj heq).1)
  | children ha hcd =>
      intro heq
      have hpair := hcd.nodup (hchildren _ ha)
      refine (List.nodup_cons.mp hpair).1 (List.mem_singleton.mpr ?_)
      exact (List.cons.inj (List.cons.inj heq).2).1

/-- No path is listed twice. -/
theorem nodup_paths : (s.allNames.map Prod.snd).Nodup := by
  rw [List.Nodup, List.pairwise_map]
  exact (pairwise_allNames s).imp fun h => h.ne hattributes hchildren

/-- Names coincide exactly where one is that of two paths. -/
theorem nodup_names_iff : (s.allNames.map Prod.fst).Nodup ↔ ¬ ∃ name, s.IsAmbiguous name := by
  have hall : s.allNames.Nodup := (nodup_paths hattributes hchildren).of_map Prod.snd
  rw [List.nodup_map_iff_inj_on hall]
  constructor
  · rintro hinj ⟨name, path, path', hne, hpath, hpath'⟩
    have heq := hinj _ (mem_allNames_iff.mpr hpath) _ (mem_allNames_iff.mpr hpath') rfl
    exact hne (congrArg Prod.snd heq)
  · rintro hunique ⟨name, path⟩ hpath ⟨name', path'⟩ hpath' heq
    obtain rfl : name = name' := heq
    by_contra hne
    refine hunique ⟨name, path, path', ?_, mem_allNames_iff.mp hpath, mem_allNames_iff.mp hpath'⟩
    rintro rfl
    exact hne rfl

end Distinct

/-! ## Flattening -/

/-- A name that is found to occur earlier does. -/
theorem pair_sublist_of_firstRepeated {seen names : List String} (h : firstRepeated seen names = some name) :
    [name, name].Sublist (seen.reverse ++ names) := by
  induction names generalizing seen with
  | nil => cases h
  | cons first names ih =>
      rw [firstRepeated] at h
      split at h
      · rename_i hseen
        obtain rfl := Option.some.inj h
        have hmem : first ∈ seen.reverse := List.mem_reverse.mpr (by simpa using hseen)
        have hfirst : [first].Sublist seen.reverse := List.singleton_sublist.mpr hmem
        have hsecond : [first].Sublist (first :: names) := List.singleton_sublist.mpr List.mem_cons_self
        exact hfirst.append hsecond
      · have hrest := ih h
        rwa [List.reverse_cons, List.append_assoc, List.singleton_append] at hrest

/-- Flattening fails with the first name that occurs earlier. -/
theorem exists_repeated_of_flatten_error {fault : Fault} (h : s.flatten = .error fault) :
    ∃ name, fault = .shape (.duplicateName name) ∧ [name, name].Sublist (s.allNames.map Prod.fst) := by
  rw [flatten] at h
  split at h
  · rename_i name hrepeated
    exact ⟨name, (Except.error.inj h).symm, pair_sublist_of_firstRepeated hrepeated⟩
  · cases h

/-- The names of a shape and their paths, listed as flattening is to list them: all of them, no name and no
path twice, in the order of the shape, and none for an attribute that gives way to its children. -/
structure IsFlattened (s : RecordShape) (entries : List (String × List String)) : Prop where
  mem_iff : ∀ name path, (name, path) ∈ entries ↔ s.Names name path
  nodup_names : (entries.map Prod.fst).Nodup
  nodup_paths : (entries.map Prod.snd).Nodup
  ordered : entries.Pairwise fun entry later => s.Precedes entry.2 later.2
  parents : ∀ a ∈ s.attributes, 1 < a.children.length → [a.name] ∉ entries.map Prod.snd

/-- A shape whose names do not coincide is flattened to all of them. -/
theorem isFlattened_allNames (hattributes : s.attributeNames.Nodup)
    (hchildren : ∀ a ∈ s.attributes, a.children.Nodup) (hunique : ¬ ∃ name, s.IsAmbiguous name) :
    s.IsFlattened s.allNames where
  mem_iff _ _ := mem_allNames_iff
  nodup_names := (nodup_names_iff hattributes hchildren).mpr hunique
  nodup_paths := nodup_paths hattributes hchildren
  ordered := pairwise_allNames s
  parents a ha hmany hmem := by
    obtain ⟨⟨name, path⟩, hentry, hpath⟩ := List.mem_map.mp hmem
    obtain rfl : path = [a.name] := hpath
    generalize hown : [a.name] = path at hentry
    cases mem_allNames_iff.mp hentry with
    | whole hb hfew =>
        obtain rfl := eq_of_name_eq hattributes ha hb (List.cons.inj hown).1
        omega
    | child => cases (List.cons.inj hown).2

/-- Flattening a shape whose attributes have different names, and the children of each, fails exactly where
two paths get one name, and reports such a name.  Otherwise it lists all paths with their names. -/
theorem flatten_outcome (s : RecordShape) (hattributes : s.attributeNames.Nodup)
    (hchildren : ∀ a ∈ s.attributes, a.children.Nodup) :
    ((∃ fault, s.flatten = .error fault) ↔ ∃ name, s.IsAmbiguous name) ∧
      (∀ fault, s.flatten = .error fault →
        ∃ name, fault = .shape (.duplicateName name) ∧ s.IsAmbiguous name) ∧
      ((¬ ∃ name, s.IsAmbiguous name) → ∃ entries, s.flatten = .ok entries ∧ s.IsFlattened entries) := by
  have hnodup := nodup_names_iff hattributes hchildren
  have hreported : ∀ fault, s.flatten = .error fault →
      ∃ name, fault = .shape (.duplicateName name) ∧ s.IsAmbiguous name := by
    intro fault hfault
    obtain ⟨name, hname, htwice⟩ := exists_repeated_of_flatten_error hfault
    refine ⟨name, hname, ?_⟩
    -- the two entries of the name stand one after the other, so their paths differ
    obtain ⟨entries, hentries, hnames⟩ := List.sublist_map_iff.mp htwice
    obtain ⟨⟨name₁, path⟩, ⟨name₂, path'⟩, rfl⟩ : ∃ first second, entries = [first, second] := by
      have hlength := congrArg List.length hnames
      rw [List.length_map] at hlength
      exact List.length_eq_two.mp hlength.symm
    obtain ⟨rfl, rfl⟩ : name = name₁ ∧ name = name₂ := by simpa using hnames
    have hordered := List.pairwise_iff_forall_sublist.mp (pairwise_allNames s) hentries
    have hmem : ∀ entry ∈ [(name, path), (name, path')], entry ∈ s.allNames := fun _ h => hentries.subset h
    exact ⟨path, path', hordered.ne hattributes hchildren,
      mem_allNames_iff.mp (hmem _ (by simp)), mem_allNames_iff.mp (hmem _ (by simp))⟩
  refine ⟨⟨?_, ?_⟩, hreported, ?_⟩
  · rintro ⟨fault, hfault⟩
    obtain ⟨name, -, hambiguous⟩ := hreported fault hfault
    exact ⟨name, hambiguous⟩
  · intro hambiguous
    exact exists_flatten_error fun hnames => hnodup.mp hnames hambiguous
  · intro hunique
    exact ⟨s.allNames, flatten_eq_ok_iff.mpr ⟨hnodup.mpr hunique, rfl⟩,
      isFlattened_allNames hattributes hchildren hunique⟩

/-- A shape with an attribute that is called what another and its child come to, and gives way to its own
children, and with one that has a single child. -/
def joinedShape : RecordShape := ⟨"Joined", [⟨"a", ["b", "c"]⟩, ⟨"a_b", ["c", "d"]⟩, ⟨"d", ["e"]⟩]⟩

/-- A shape with a name that can be cut at two places. -/
def ambiguousShape : RecordShape := ⟨"Ambiguous", [⟨"a", ["b", "b_c"]⟩, ⟨"a_b", ["c", "d"]⟩]⟩

/-- The name of the attribute is free for the child of the other, and the one with a single child stays; a
name of two children is reported. -/
theorem flatten_outcome_joined :
    (joinedShape.attributeNames.Nodup ∧ (∀ a ∈ joinedShape.attributes, a.children.Nodup) ∧
      joinedShape.IsFlattened [("a_b", ["a", "b"]), ("a_c", ["a", "c"]), ("a_b_c", ["a_b", "c"]),
        ("a_b_d", ["a_b", "d"]), ("d", ["d"])]) ∧
    (ambiguousShape.attributeNames.Nodup ∧ (∀ a ∈ ambiguousShape.attributes, a.children.Nodup) ∧
      ambiguousShape.flatten = .error (.shape (.duplicateName "a_b_c")) ∧
      ambiguousShape.IsAmbiguous "a_b_c") := by
  have hjoined : joinedShape.flatten = .ok [("a_b", ["a", "b"]), ("a_c", ["a", "c"]),
      ("a_b_c", ["a_b", "c"]), ("a_b_d", ["a_b", "d"]), ("d", ["d"])] := rfl
  have hambiguous : ambiguousShape.flatten = .error (.shape (.duplicateName "a_b_c")) := rfl
  have hnames : joinedShape.attributeNames.Nodup ∧ ∀ a ∈ joinedShape.attributes, a.children.Nodup := by decide
  have hnames' : ambiguousShape.attributeNames.Nodup ∧ ∀ a ∈ ambiguousShape.attributes, a.children.Nodup := by
    decide
  obtain ⟨hfails, -, hlists⟩ := flatten_outcome joinedShape hnames.1 hnames.2
  obtain ⟨-, hreports, -⟩ := flatten_outcome ambiguousShape hnames'.1 hnames'.2
  refine ⟨⟨hnames.1, hnames.2, ?_⟩, hnames'.1, hnames'.2, hambiguous, ?_⟩
  · obtain ⟨entries, hentries, hflattened⟩ := hlists fun hname => by
      obtain ⟨fault, hfault⟩ := hfails.mpr hname
      rw [hjoined] at hfault
      cases hfault
    rw [hjoined] at hentries
    exact Except.ok.inj hentries ▸ hflattened
  · obtain ⟨name, hname, hshared⟩ := hreports _ hambiguous
    cases hname
    exact hshared

end Rubric.RecordShape
