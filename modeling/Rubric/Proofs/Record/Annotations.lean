import Mathlib.Data.List.Forall2
import Rubric.Proofs.Classification
import Rubric.Proofs.Sequencing
import Rubric.Proofs.Value.Data
import Rubric.Proofs.Value.Template
import Rubric.Record.TypeHint

/-!
# Children and annotations

The fields of a declared record type are annotated with type expressions, in which quoted names are looked
up.  An attribute has children where its annotation stands for a declared type, or for one or nothing: they
are the names of that type's own fields.  Other unions and lists have none.  A mapping from keys to values
has none either, except that it is taken for a union where exactly one of the two is the type of null: then
the children are those of the other.

* `TypeExpr.unionOf_eq` : unions are flat lists of different members;
* `TypeTable.attributeTypes?_ok` : the fields of a type, with what their annotations stand for;
* `TypeTable.children_follow_annotations` : the children of attributes.
-/

namespace Rubric

namespace TypeExpr

/-! ## Equality -/

mutual

/-- Expressions that compare as the same are equal. -/
theorem same_iff : ∀ a b : TypeExpr, same a b = true ↔ a = b
  | .plain _, b | .nothing, b | .declared _, b | .forward _, b => by cases b <;> simp [same]
  | .union as, b => by
      cases b with
      | union bs => simp [same, sameAll_iff as bs]
      | _ => simp [same]
  | .list a, b => by
      cases b with
      | list b => simp [same, same_iff a b]
      | _ => simp [same]
  | .mapping k v, b => by
      cases b with
      | mapping k' v' => simp [same, same_iff k k', same_iff v v']
      | _ => simp [same]

theorem sameAll_iff : ∀ as bs : List TypeExpr, sameAll as bs = true ↔ as = bs
  | [], [] | [], _ :: _ | _ :: _, [] => by simp [sameAll]
  | a :: as, b :: bs => by simp [sameAll, same_iff a b, sameAll_iff as bs]

end

instance : BEq TypeExpr := ⟨same⟩

instance : LawfulBEq TypeExpr where
  eq_of_beq h := (same_iff _ _).mp h
  rfl := (same_iff _ _).mpr rfl

/-! ## Unions -/

/-- The members of a union; any other expression is its own. -/
def opened : TypeExpr → List TypeExpr
  | union ms => ms
  | m => [m]

/-- A single member alone, several as a union. -/
def ofMembers : List TypeExpr → TypeExpr
  | [only] => only
  | ms => union ms

/-- A union is made of the members of its members, each once. -/
theorem unionOf_eq (members : List TypeExpr) :
    unionOf members = ofMembers (members.flatMap opened).eraseDups := by
  -- from any members seen before, the different ones among them and the further ones are kept
  have hdistinct : ∀ ms seen : List TypeExpr,
      ms.foldl (fun ms m => if ms.any (same m) then ms else ms ++ [m]) seen.eraseDups =
        (seen ++ ms).eraseDups := by
    intro ms
    induction ms with
    | nil => intro seen; rw [List.append_nil]; rfl
    | cons m ms ih =>
        intro seen
        have hstep : (if seen.eraseDups.any (same m) then seen.eraseDups else seen.eraseDups ++ [m]) =
            (seen ++ [m]).eraseDups := by
          rw [eraseDups_append_singleton]
          have hany : (seen.eraseDups.any (same m) = true) ↔ m ∈ seen := by
            simp [List.any_eq_true, same_iff, List.mem_eraseDups]
          simp only [hany]
        rw [List.foldl_cons, hstep, ih, List.append_assoc, List.singleton_append]
  have hall := hdistinct (members.flatMap opened) []
  rw [List.nil_append] at hall
  rw [← hall]
  rfl

/-- Whether an expression is a union. -/
def isUnion : TypeExpr → Bool
  | union _ => true
  | _ => false

/-- An expression that is no union is its own only member. -/
theorem opened_of_isUnion {t : TypeExpr} (h : t.isUnion = false) : t.opened = [t] := by
  cases t with
  | union ms => cases h
  | _ => rfl

/-- Whether an expression is written as unions are made: their members are different and no unions
themselves, and a single one stands alone. -/
def IsFormed : TypeExpr → Prop
  | union ms => ms.Nodup ∧ (∀ m ∈ ms, m.isUnion = false) ∧ ms.length ≠ 1
  | _ => True

/-- An expression that is no union is formed. -/
theorem isFormed_of_isUnion {t : TypeExpr} (h : t.isUnion = false) : t.IsFormed := by
  cases t with
  | union ms => cases h
  | _ => trivial

/-- What is taken out of a formed expression is no union. -/
theorem isUnion_of_mem_opened {t m : TypeExpr} (ht : t.IsFormed) (hm : m ∈ t.opened) :
    m.isUnion = false := by
  cases t with
  | union ms => exact ht.2.1 m hm
  | _ => rw [List.mem_singleton.mp hm]; rfl

/-- Unions of formed expressions are formed. -/
theorem isFormed_unionOf {members : List TypeExpr} (h : ∀ m ∈ members, m.IsFormed) :
    (unionOf members).IsFormed := by
  have hflat : ∀ m ∈ (members.flatMap opened).eraseDups, m.isUnion = false := by
    intro m hm
    obtain ⟨t, ht, hmt⟩ := List.mem_flatMap.mp (List.mem_eraseDups.mp hm)
    exact isUnion_of_mem_opened (h t ht) hmt
  have hnodup := nodup_eraseDups (members.flatMap opened)
  rw [unionOf_eq]
  generalize (members.flatMap opened).eraseDups = ms at hflat hnodup
  match ms with
  | [] => exact ⟨hnodup, hflat, by simp⟩
  | [only] => exact isFormed_of_isUnion (hflat only (List.mem_singleton_self only))
  | _ :: _ :: _ => exact ⟨hnodup, hflat, by simp⟩

/-- Different members are left as they are. -/
theorem eraseDups_of_nodup {ms : List TypeExpr} (h : ms.Nodup) : ms.eraseDups = ms := by
  induction ms with
  | nil => rfl
  | cons m ms ih =>
      obtain ⟨hm, hms⟩ := List.nodup_cons.mp h
      have hrest : (ms.filter fun b => !b == m) = ms := by
        refine List.filter_eq_self.mpr fun b hb => ?_
        rw [Bool.not_eq_true', beq_eq_false_iff_ne]
        rintro rfl
        exact hm hb
      rw [List.eraseDups_cons, hrest, ih hms]

/-- The union of a formed expression and the type of null. -/
theorem unionOf_nothing {t : TypeExpr} (ht : t.IsFormed) : unionOf [t, nothing] =
    if nothing ∈ t.opened then t else ofMembers (t.opened ++ [nothing]) := by
  have hnodup : t.opened.Nodup := by
    cases t with
    | union ms => exact ht.1
    | _ => exact List.nodup_singleton _
  have hself : ofMembers t.opened = t := by
    cases t with
    | union ms =>
        rw [opened, ofMembers.eq_def]
        split
        · exact absurd rfl ht.2.2
        · rfl
    | _ => rfl
  have hmembers : [t, nothing].flatMap opened = t.opened ++ [nothing] := by
    rw [List.flatMap_cons, List.flatMap_singleton]
    rfl
  rw [unionOf_eq, hmembers, eraseDups_append_singleton, eraseDups_of_nodup hnodup]
  split
  · exact hself
  · rfl

/-! ## One of two parts -/

/-- A union with two members or more besides the type of null stands for itself. -/
theorem withoutNothing_union {ms : List TypeExpr} (h : 2 ≤ (ms.filter fun m => !m.isNothing).length) :
    (union ms).withoutNothing = union ms := by
  rw [withoutNothing]
  split
  · split
    · rename_i only honly
      rw [arguments] at honly
      rw [honly] at h
      simp at h
    · rfl
  · rfl

theorem withoutNothing_list (item : TypeExpr) : (list item).withoutNothing = list item := by
  cases item <;> simp [withoutNothing, arguments, isNothing]

/-- Whether an expression is a mapping of which exactly one part is the type of null. -/
def isHalfNothing : TypeExpr → Bool
  | mapping key value => key.isNothing != value.isNothing
  | _ => false

/-- A mapping stands for one of its two parts where the other is the type of null. -/
theorem withoutNothing_mapping (key value : TypeExpr) :
    (mapping key value).withoutNothing =
      if key.isNothing = value.isNothing then mapping key value
      else if key.isNothing then value else key := by
  cases hkey : key.isNothing <;> cases hvalue : value.isNothing <;>
    simp [withoutNothing, arguments, hkey, hvalue]

/-- Other expressions stand for themselves. -/
theorem withoutNothing_of_isUnion {t : TypeExpr} (hunion : t.isUnion = false)
    (h : t.isHalfNothing = false) : t.withoutNothing = t := by
  cases t with
  | union ms => cases hunion
  | list item => exact withoutNothing_list item
  | mapping key value =>
      have hparts : key.isNothing = value.isNothing := by simpa [isHalfNothing] using h
      rw [withoutNothing_mapping, if_pos hparts]
  | _ => rfl

theorem isNothing_iff {t : TypeExpr} : t.isNothing = true ↔ t = nothing := by
  cases t <;> simp [isNothing]

end TypeExpr

/-! ## Annotations that stand for types -/

namespace TypeTable

open TypeExpr

variable {table : TypeTable} {name : String} {t r : TypeExpr}

mutual

/-- Looking quoted names up leaves formed expressions. -/
theorem isFormed_resolve : ∀ {t r : TypeExpr}, table.resolve t = .ok r → r.IsFormed
  | .plain _, r, h | .nothing, r, h | .declared _, r, h => by
      rw [resolve] at h
      · cases h
        trivial
      all_goals simp
  | .forward name, r, h => by
      rw [resolve] at h
      split at h
      · cases h
        trivial
      · split at h
        · cases h
          trivial
        · split at h
          · cases h
            trivial
          · cases h
  | .union members, r, h => by
      rw [resolve] at h
      obtain ⟨rs, hrs, rfl⟩ := ok_of_map h
      exact isFormed_unionOf (isFormed_resolveAll hrs)
  | .list item, r, h => by
      rw [resolve] at h
      obtain ⟨item', -, rfl⟩ := ok_of_map h
      trivial
  | .mapping key value, r, h => by
      rw [resolve] at h
      split at h
      · cases h
      · obtain ⟨value', -, rfl⟩ := ok_of_map h
        trivial

theorem isFormed_resolveAll : ∀ {ts rs : List TypeExpr}, table.resolveAll ts = .ok rs →
    ∀ r ∈ rs, r.IsFormed
  | [], rs, h => by
      rw [resolveAll] at h
      cases h
      simp
  | t :: ts, rs, h => by
      rw [resolveAll] at h
      split at h
      · cases h
      · rename_i r hr
        obtain ⟨rs, hrs, rfl⟩ := ok_of_map h
        exact List.forall_mem_cons.mpr ⟨isFormed_resolve hr, isFormed_resolveAll hrs⟩

end

/-! ## Fields and their annotations -/

/-- Whether a field with a type has the name of another, whose annotation stands for the type. -/
def StandsFor (table : TypeTable) (written field : String × TypeExpr) : Prop :=
  written.1 = field.1 ∧ table.resolve written.2 = .ok field.2

section

variable {α : Type}

/-- A field that is noted keeps the place of an earlier one of its name. -/
theorem map_name_noteField (fields : List (String × α)) (field : String × α) :
    (noteField fields field).map Prod.fst =
      if field.1 ∈ fields.map Prod.fst then fields.map Prod.fst else fields.map Prod.fst ++ [field.1] := by
  have hany : (fields.any fun f => f.1 == field.1) = true ↔ field.1 ∈ fields.map Prod.fst := by
    simp [List.any_eq_true, List.mem_map]
  rw [noteField]
  by_cases h : field.1 ∈ fields.map Prod.fst
  · rw [if_pos (hany.mpr h), if_pos h, List.map_map]
    refine List.map_congr_left fun f _ => ?_
    by_cases hf : f.1 = field.1
    · simp [hf]
    · simp [hf]
  · rw [if_neg (mt hany.mp h), if_neg h, List.map_append, List.map_singleton]

/-- The names of fields that are noted one after the other. -/
theorem map_name_fields (fields : List (String × α)) :
    (fields.foldl noteField []).map Prod.fst = (fields.map Prod.fst).eraseDups := by
  have hnoted : ∀ (seen : List (String × α)) (names : List String), seen.map Prod.fst = names.eraseDups →
      (fields.foldl noteField seen).map Prod.fst = (names ++ fields.map Prod.fst).eraseDups := by
    induction fields with
    | nil => intro seen names h; rw [List.map_nil, List.append_nil]; exact h
    | cons field fields ih =>
        intro seen names h
        have hfield : (noteField seen field).map Prod.fst = (names ++ [field.1]).eraseDups := by
          rw [map_name_noteField, h, eraseDups_append_singleton]
          simp only [List.mem_eraseDups]
        rw [List.foldl_cons, ih _ _ hfield, List.map_cons, List.append_assoc, List.singleton_append]
  exact hnoted [] [] rfl

end

/-- Noting fields whose annotations stand for types. -/
theorem standsFor_noteField {written fields : List (String × TypeExpr)} {w f : String × TypeExpr}
    (h : List.Forall₂ table.StandsFor written fields) (hfield : table.StandsFor w f) :
    List.Forall₂ table.StandsFor (noteField written w) (noteField fields f) := by
  have hany : (written.any fun g => g.1 == w.1) = fields.any fun g => g.1 == f.1 := by
    induction h with
    | nil => rfl
    | cons hfirst _ ih => rw [List.any_cons, List.any_cons, ih, hfirst.1, hfield.1]
  rw [noteField, noteField, hany]
  split
  · refine List.forall₂_map_left_iff.mpr (List.forall₂_map_right_iff.mpr (h.imp fun a b hab => ?_))
    rw [hab.1, hfield.1]
    split
    · exact hfield
    · exact hab
  · exact List.rel_append h (.cons hfield .nil)

theorem standsFor_foldl {written fields : List (String × TypeExpr)}
    (h : List.Forall₂ table.StandsFor written fields) :
    ∀ {seen seen' : List (String × TypeExpr)}, List.Forall₂ table.StandsFor seen seen' →
      List.Forall₂ table.StandsFor (written.foldl noteField seen) (fields.foldl noteField seen') := by
  induction h with
  | nil => exact fun hseen => hseen
  | cons hfirst _ ih => exact fun hseen => ih (standsFor_noteField hseen hfirst)

variable {d : TypeDecl} {hints : List (String × TypeExpr)}

/-- The resolved annotations are those of the type and its ancestors, with what they stand for. -/
theorem resolvedAnnotations_ok (h : table.resolvedAnnotations d = .ok hints) :
    List.Forall₂ table.StandsFor (table.annotations d) hints := by
  rw [resolvedAnnotations] at h
  cases hall : ((table.lineage d).flatMap TypeDecl.fields).mapM
      fun f => (table.resolve f.2).map fun t => (f.1, t) with
  | error name =>
      simp only [hall] at h
      cases h
  | ok fields =>
      simp only [hall] at h
      cases h
      refine standsFor_foldl ((forall₂_of_mapM hall).imp fun w f hf => ?_) .nil
      obtain ⟨r, hr, rfl⟩ := ok_of_map hf
      exact ⟨rfl, hr⟩

/-- Whether a field of a declared type has an annotation that stands for a type. -/
def HasAnnotation (table : TypeTable) (d : TypeDecl) (name : String) (r : TypeExpr) : Prop :=
  ∃ written, (table.annotations d).lookup name = some written ∧ table.resolve written = .ok r

/-- Annotations stand for one type. -/
theorem HasAnnotation.unique {r' : TypeExpr} (h : table.HasAnnotation d name r)
    (h' : table.HasAnnotation d name r') : r = r' := by
  obtain ⟨written, hwritten, hr⟩ := h
  obtain ⟨_, hwritten', hr'⟩ := h'
  rw [hwritten] at hwritten'
  cases hwritten'
  rw [hr] at hr'
  cases hr'
  rfl

/-- What an annotation stands for is formed. -/
theorem HasAnnotation.isFormed (h : table.HasAnnotation d name r) : r.IsFormed := by
  obtain ⟨written, -, hr⟩ := h
  exact isFormed_resolve hr

/-- What is found under a name among the resolved annotations is what the annotation stands for. -/
theorem hasAnnotation_of_lookup (h : table.resolvedAnnotations d = .ok hints)
    (hfound : hints.lookup name = some r) : table.HasAnnotation d name r := by
  have hstands := resolvedAnnotations_ok h
  clear h
  unfold HasAnnotation
  generalize table.annotations d = annotations at hstands ⊢
  induction hstands with
  | nil => cases hfound
  | @cons w f written fields hfirst _ ih =>
      obtain ⟨n, x⟩ := w
      obtain ⟨n', r'⟩ := f
      obtain ⟨rfl, hr⟩ := hfirst
      rw [List.lookup_cons] at hfound ⊢
      cases hname : name == n with
      | true =>
          rw [hname] at hfound
          cases hfound
          exact ⟨x, rfl, hr⟩
      | false =>
          simp only [hname] at hfound
          exact ih hfound

/-- The names of the resolved annotations. -/
theorem map_name_resolvedAnnotations (h : table.resolvedAnnotations d = .ok hints) :
    hints.map Prod.fst = (table.annotations d).map Prod.fst := by
  have hstands := resolvedAnnotations_ok h
  clear h
  generalize table.annotations d = annotations at hstands ⊢
  induction hstands with
  | nil => rfl
  | cons hfirst _ ih => rw [List.map_cons, List.map_cons, ih, hfirst.1]

theorem map_name_annotations (d : TypeDecl) : (table.annotations d).map Prod.fst =
    (((table.lineage d).flatMap TypeDecl.fields).map Prod.fst).eraseDups :=
  map_name_fields _

/-- No two resolved annotations have one name. -/
theorem nodup_map_name (h : table.resolvedAnnotations d = .ok hints) : (hints.map Prod.fst).Nodup := by
  rw [map_name_resolvedAnnotations h, map_name_annotations]
  exact nodup_eraseDups _

/-- A resolved annotation is that of its field. -/
theorem hasAnnotation_of_mem (h : table.resolvedAnnotations d = .ok hints) {f : String × TypeExpr}
    (hf : f ∈ hints) : table.HasAnnotation d f.1 f.2 :=
  hasAnnotation_of_lookup h ((Value.lookup_eq_some_iff_mem (nodup_map_name h)).mpr hf)

/-- The fields of a constructor are annotated. -/
theorem mem_annotations_of_constructorFields (h : name ∈ table.constructorFields d) :
    name ∈ (table.annotations d).map Prod.fst := by
  rw [constructorFields, map_name_fields, List.mem_eraseDups, List.mem_map] at h
  obtain ⟨f, hf, rfl⟩ := h
  obtain ⟨a, ha, hfa⟩ := List.mem_flatMap.mp hf
  rw [map_name_annotations, List.mem_eraseDups]
  exact List.mem_map_of_mem (List.mem_flatMap.mpr ⟨a, List.mem_of_mem_filter ha, hfa⟩)

/-! ## Record types and their own names -/

/-- The declared type that an expression names. -/
def named? (table : TypeTable) : TypeExpr → Option TypeDecl
  | .declared name => table.decl? name
  | _ => none

/-- The declared type that an expression stands for, itself or as that type or nothing. -/
def record? (table : TypeTable) (t : TypeExpr) : Option TypeDecl := table.named? t.withoutNothing

/-- The names of a declared type's own attributes: the fields of its constructor where it has one, else
those that are annotated, without the private ones of a plain class. -/
def ownNames (table : TypeTable) (d : TypeDecl) : List String :=
  if table.isStructured d then table.constructorFields d
  else
    let names := (table.annotations d).map Prod.fst
    if d.declaration = .annotated then names.filter fun n => !n.startsWith "_" else names

/-- The fields of a declared type that are its attributes, of all that are annotated; a plain class
without any has no attributes. -/
def ownFields (table : TypeTable) (d : TypeDecl) (hints : List (String × TypeExpr)) :
    Option (List (String × TypeExpr)) :=
  if table.isStructured d then
    some ((table.constructorFields d).map fun f => (f, (hints.lookup f).getD (.plain "Any")))
  else
    match d.declaration with
    | .annotated =>
      let visible := hints.filter fun f => !f.1.startsWith "_"
      if visible.isEmpty then none else some visible
    | _ => some hints

/-- The attributes of a type that stands for a declared one are the fields of that. -/
theorem attributeTypes?_of_record (h : table.record? t = some d) :
    table.attributeTypes? t = (table.resolvedAnnotations d).map (table.ownFields d) := by
  rw [record?] at h
  rw [attributeTypes?]
  cases hsimple : t.withoutNothing with
  | declared name =>
      have hname : table.decl? name = some d := by
        rw [hsimple] at h
        exact h
      simp only [hname]
      rfl
  | _ =>
      rw [hsimple] at h
      cases h

/-- Other types have none. -/
theorem attributeTypes?_of_leaf (h : table.record? t = none) : table.attributeTypes? t = .ok none := by
  rw [record?] at h
  rw [attributeTypes?]
  cases hsimple : t.withoutNothing with
  | declared name =>
      have hname : table.decl? name = none := by
        rw [hsimple] at h
        exact h
      simp only [hname]
  | _ => rfl

/-- The names of the fields are the type's own names. -/
theorem map_name_ownFields (h : table.resolvedAnnotations d = .ok hints) :
    ((table.ownFields d hints).getD []).map Prod.fst = table.ownNames d := by
  have hnames := map_name_resolvedAnnotations h
  rw [ownFields, ownNames]
  split
  · rw [Option.getD_some, List.map_map]
    exact List.map_id _
  · split
    · rename_i hannotated
      have hvisible : (hints.filter fun f => !f.1.startsWith "_").map Prod.fst =
          ((table.annotations d).map Prod.fst).filter fun n => !n.startsWith "_" := by
        rw [← hnames, List.filter_map]
        rfl
      rw [if_pos hannotated, ← hvisible]
      dsimp only
      split
      · rename_i hempty
        rw [List.isEmpty_iff.mp hempty]
        rfl
      · rfl
    · rename_i hother
      rw [if_neg hother]
      exact hnames

/-- The types of the fields are what their annotations stand for. -/
theorem hasAnnotation_of_mem_ownFields (h : table.resolvedAnnotations d = .ok hints)
    {f : String × TypeExpr} (hf : f ∈ (table.ownFields d hints).getD []) :
    table.HasAnnotation d f.1 f.2 := by
  rw [ownFields] at hf
  split at hf
  · obtain ⟨field, hfield, rfl⟩ := List.mem_map.mp hf
    have hhint : field ∈ hints.map Prod.fst :=
      map_name_resolvedAnnotations h ▸ mem_annotations_of_constructorFields hfield
    -- every field of the constructor is annotated, so that no type is made up for it
    obtain ⟨hint, hmem, rfl⟩ := List.mem_map.mp hhint
    have hlookup := (Value.lookup_eq_some_iff_mem (nodup_map_name h)).mpr hmem
    rw [hlookup]
    exact hasAnnotation_of_lookup h hlookup
  · split at hf
    · refine hasAnnotation_of_mem h (List.mem_of_mem_filter (p := fun f => !f.1.startsWith "_") ?_)
      dsimp only at hf
      split at hf
      · cases hf
      · exact hf
    · exact hasAnnotation_of_mem h hf

/-- The own names of the declared type that an expression stands for; other expressions have none. -/
def recordNames (table : TypeTable) (t : TypeExpr) : List String :=
  ((table.record? t).map table.ownNames).getD []

/-- The own names of the declared type that an expression names. -/
def namedNames (table : TypeTable) (t : TypeExpr) : List String :=
  ((table.named? t).map table.ownNames).getD []

/-- The names of what is found as the attributes of a type. -/
theorem map_name_attributeTypes? {found : Option (List (String × TypeExpr))}
    (h : table.attributeTypes? t = .ok found) : (found.getD []).map Prod.fst = table.recordNames t := by
  rw [recordNames]
  cases hrecord : table.record? t with
  | none =>
      rw [attributeTypes?_of_leaf hrecord] at h
      cases h
      rfl
  | some d =>
      rw [attributeTypes?_of_record hrecord] at h
      obtain ⟨hints, hhints, rfl⟩ := ok_of_map h
      exact map_name_ownFields hhints

/-- An attribute that is described has the own names of its type as children. -/
theorem describeField_ok {field : String × TypeExpr} {a : Attribute}
    (h : table.describeField field = .ok a) :
    a.name = field.1 ∧ a.children = table.recordNames field.2 := by
  obtain ⟨found, hfound, rfl⟩ := ok_of_map h
  exact ⟨rfl, map_name_attributeTypes? hfound⟩

/-- Whether a declared type is described by a shape: the attributes have its own names, and the names of
the types that are annotated as children. -/
structure IsDescribedBy (table : TypeTable) (d : TypeDecl) (s : RecordShape) : Prop where
  names : s.attributeNames = table.ownNames d
  children : ∀ a ∈ s.attributes, ∃ r, table.HasAnnotation d a.name r ∧ a.children = table.recordNames r

/-- A type with a shape stands for a declared one, which the shape describes. -/
theorem isDescribedBy_of_shape {s : RecordShape} (h : table.shape t = .ok s) :
    ∃ d, table.record? t = some d ∧ table.IsDescribedBy d s := by
  rw [shape] at h
  split at h
  · cases h
  · cases h
  · rename_i fields hfields
    obtain ⟨attributes, hattributes, rfl⟩ := ok_of_map h
    have hdescribed := forall₂_of_mapM hattributes
    -- a type that is no declared record has no attributes to describe
    cases hrecord : table.record? t with
    | none =>
        rw [attributeTypes?_of_leaf hrecord] at hfields
        cases hfields
    | some d =>
        rw [attributeTypes?_of_record hrecord] at hfields
        obtain ⟨hints, hhints, hown⟩ := ok_of_map hfields
        refine ⟨d, rfl, ?_, fun a ha => ?_⟩
        · have hnames : attributes.map Attribute.name = fields.map Prod.fst := by
            clear hattributes hfields h hown
            induction hdescribed with
            | nil => rfl
            | cons hfirst _ ih =>
                rw [List.map_cons, List.map_cons, ih, (describeField_ok hfirst).1]
          rw [RecordShape.attributeNames, hnames, ← map_name_ownFields hhints, hown]
          rfl
        · obtain ⟨field, hfield, hfirst⟩ := Value.exists_of_forall₂ hdescribed a ha
          obtain ⟨hname, hchildren⟩ := describeField_ok hfirst
          refine ⟨field.2, ?_, hchildren⟩
          rw [hname]
          exact hasAnnotation_of_mem_ownFields hhints (by rw [hown]; exact hfield)

/-! ## Children -/

theorem recordNames_eq (t : TypeExpr) : table.recordNames t = table.namedNames t.withoutNothing := rfl

theorem recordNames_declared {d : TypeDecl} (h : table.decl? name = some d) :
    table.recordNames (.declared name) = table.ownNames d := by
  have hnamed : table.named? (.declared name) = some d := h
  have hsimple : withoutNothing (.declared name) = .declared name := rfl
  rw [recordNames_eq, hsimple, namedNames, hnamed]
  rfl

theorem recordNames_list (item : TypeExpr) : table.recordNames (.list item) = [] := by
  rw [recordNames_eq, withoutNothing_list]
  rfl

/-- A mapping with one part that is the type of null has the names that the other part names. -/
theorem recordNames_mapping (key value : TypeExpr) :
    table.recordNames (.mapping key value) =
      if key.isNothing = value.isNothing then []
      else table.namedNames (if key.isNothing then value else key) := by
  rw [recordNames_eq, withoutNothing_mapping]
  split
  · rfl
  · rfl

theorem recordNames_union {ms : List TypeExpr} (h : 2 ≤ (ms.filter fun m => !m.isNothing).length) :
    table.recordNames (.union ms) = [] := by
  rw [recordNames_eq, withoutNothing_union h]
  rfl

/-- A type or nothing has the names of the type, except for a mapping that is itself taken for such a
union. -/
theorem recordNames_optional (hr : r.IsFormed) (h : r.isHalfNothing = false) :
    table.recordNames (unionOf [r, .nothing]) = table.recordNames r := by
  rw [unionOf_nothing hr]
  by_cases hnothing : .nothing ∈ r.opened
  · -- the type allows nothing already
    rw [if_pos hnothing]
  rw [if_neg hnothing]
  by_cases hunion : r.isUnion = true
  · match r, hunion with
    | .union [], _ => rfl
    | .union [m], _ => exact absurd rfl hr.2.2
    | .union (m :: m' :: ms), _ =>
        -- a union of several types stays one
        have hothers : ((m :: m' :: ms).filter fun m => !m.isNothing) = m :: m' :: ms := by
          refine List.filter_eq_self.mpr fun a ha => ?_
          rw [Bool.not_eq_true', Bool.eq_false_iff, Ne, isNothing_iff]
          rintro rfl
          exact hnothing ha
        have hseveral : 2 ≤ ((m :: m' :: ms ++ [nothing]).filter fun m => !m.isNothing).length := by
          rw [List.filter_append, hothers]
          simp
        rw [recordNames_union (by rw [hothers]; simp)]
        exact recordNames_union hseveral
  · -- a single type and nothing are taken for the type
    rw [opened_of_isUnion (Bool.eq_false_iff.mpr hunion)] at hnothing ⊢
    rw [recordNames_eq, recordNames_eq, withoutNothing_of_isUnion (Bool.eq_false_iff.mpr hunion) h]
    have hr' : r.isNothing = false := by
      rw [Bool.eq_false_iff, Ne, isNothing_iff]
      rintro rfl
      exact hnothing (List.mem_singleton_self _)
    have hnull : isNothing .nothing = true := rfl
    have htaken : withoutNothing (.union [r, .nothing]) = r := by
      simp [withoutNothing, arguments, hr', hnull]
    exact congrArg table.namedNames htaken

/-- Whether a type stands for a declared one, in which a field's annotation stands for another type. -/
def IsAnnotated (table : TypeTable) (t : TypeExpr) (name : String) (r : TypeExpr) : Prop :=
  ∃ d, table.record? t = some d ∧ table.HasAnnotation d name r

/-- Whether the children of an attribute are those that its annotation asks for: none for lists, for
mappings and for unions of several types, and the own names of a declared type.  The mapping of which one
part is the type of null has the own names of the type that the other part names. -/
structure FollowsAnnotation (table : TypeTable) (r : TypeExpr) (children : List String) : Prop where
  list : ∀ item, r = .list item → children = []
  mapping : ∀ key value, r = .mapping key value → children =
    if key.isNothing = value.isNothing then [] else table.namedNames (if key.isNothing then value else key)
  union : ∀ members, r = .union members → 2 ≤ (members.filter fun m => !m.isNothing).length → children = []
  declared : ∀ name d, r = .declared name → table.decl? name = some d → children = table.ownNames d
  described : ∀ name s, r = .declared name → table.shape r = .ok s → children = s.attributeNames

/-- The own names of the type that an annotation stands for are the children it asks for. -/
theorem followsAnnotation_recordNames (r : TypeExpr) : table.FollowsAnnotation r (table.recordNames r) where
  list := by
    rintro item rfl
    exact recordNames_list item
  mapping := by
    rintro key value rfl
    exact recordNames_mapping key value
  union := by
    rintro members rfl h
    exact recordNames_union h
  declared := by
    rintro name d rfl h
    exact recordNames_declared h
  described := by
    rintro name s rfl h
    obtain ⟨d, hd, hs⟩ := isDescribedBy_of_shape h
    rw [recordNames, hd]
    exact hs.names.symm

/-- The children of a described attribute are those of its annotation. -/
theorem children_eq_recordNames {s : RecordShape} (h : table.shape t = .ok s) {a : Attribute}
    (ha : a ∈ s.attributes) {r : TypeExpr} (hr : table.IsAnnotated t a.name r) :
    a.children = table.recordNames r := by
  obtain ⟨d, hd, hs⟩ := isDescribedBy_of_shape h
  obtain ⟨d', hd', hannotation⟩ := hr
  rw [hd] at hd'
  cases hd'
  obtain ⟨r', hr', hchildren⟩ := hs.children a ha
  rw [hchildren, hr'.unique hannotation]

/-- Every attribute of a described type has an annotation, and the children that this asks for; one that is
annotated with a type or nothing has the children of every attribute that is annotated with the type, except
where that is itself a mapping of which one part is the type of null. -/
theorem children_follow_annotations {s : RecordShape} (h : table.shape t = .ok s) {a : Attribute}
    (ha : a ∈ s.attributes) :
    ∃ r, table.IsAnnotated t a.name r ∧ table.FollowsAnnotation r a.children ∧
      ∀ t' s' a' r', table.shape t' = .ok s' → a' ∈ s'.attributes → table.IsAnnotated t' a'.name r' →
        r = unionOf [r', .nothing] → r'.isHalfNothing = false → a.children = a'.children := by
  obtain ⟨d, hd, hs⟩ := isDescribedBy_of_shape h
  obtain ⟨r, hr, hchildren⟩ := hs.children a ha
  refine ⟨r, ⟨d, hd, hr⟩, hchildren ▸ followsAnnotation_recordNames r, ?_⟩
  intro t' s' a' r' h' ha' hr' hoptional hhalf
  have hchildren' := children_eq_recordNames h' ha' hr'
  obtain ⟨d', -, hannotation⟩ := hr'
  rw [hchildren, hchildren', hoptional, recordNames_optional hannotation.isFormed hhalf]

/-- A type with the fields `City` and `Zip`, and one with fields of that type, of it or nothing, and of a
mapping from it to nothing. -/
def addressTable : TypeTable where
  decls := [
    { declaration := .structured, name := "Holder"
      fields := [("home", .declared "Address"), ("other", .union [.forward "Address", .nothing]),
        ("tags", .list (.declared "Address")), ("m", .mapping (.declared "Address") .nothing)]
      base := none, frozen := false, byValue := true },
    { declaration := .structured, name := "Address", fields := [("City", .plain "str"), ("Zip", .plain "str")]
      base := none, frozen := false, byValue := true }]

theorem shape_addressTable : addressTable.shape (.declared "Holder") = .ok ⟨"Holder",
    [⟨"home", ["City", "Zip"]⟩, ⟨"other", ["City", "Zip"]⟩, ⟨"tags", []⟩, ⟨"m", ["City", "Zip"]⟩]⟩ := by
  rfl

/-- The theorem at an optional address. -/
theorem children_follow_annotations_optional :
    ∃ r, addressTable.IsAnnotated (.declared "Holder") "other" r ∧
      addressTable.FollowsAnnotation r ["City", "Zip"] := by
  obtain ⟨r, hr, hfollows, -⟩ := children_follow_annotations shape_addressTable
    (a := ⟨"other", ["City", "Zip"]⟩) (by simp)
  exact ⟨r, hr, hfollows⟩

/-- Not every attribute that is annotated with a mapping is without children. -/
theorem not_leaf_of_every_mapping : ¬ ∀ (table : TypeTable) (t : TypeExpr) (s : RecordShape) (a : Attribute)
    (key value : TypeExpr), table.shape t = .ok s → a ∈ s.attributes →
    table.IsAnnotated t a.name (.mapping key value) → a.children = [] := by
  intro hleaf
  have hm := hleaf addressTable (.declared "Holder") _ ⟨"m", ["City", "Zip"]⟩ (.declared "Address") .nothing
    shape_addressTable (by simp) ⟨_, rfl, _, rfl, rfl⟩
  cases hm

end TypeTable

end Rubric
