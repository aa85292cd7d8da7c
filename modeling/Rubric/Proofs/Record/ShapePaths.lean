import Rubric.Proofs.Evaluator.FieldNames

/-!
# Compiled paths and the shape

An expression selects a path by a flattened name, or by a dotted path whose first component is an
attribute and whose second is a child of it, where the attribute has children.  What lies below an
attribute without children the shape does not say, so there a dotted path may go on.

* `RecordShape.Selects` : which path an expression selects;
* `RecordShape.Follows` : paths that lie in a shape as far as it goes;
* `Resolver.path_follows_shape` : the selected paths do, and all other expressions are refused.
-/

namespace Rubric

open Rubric.Text

namespace RecordShape

/-! ## Paths and shapes -/

/-- Whether a path lies in a shape: it is an attribute, or one and a child of it. -/
inductive Contains (shape : RecordShape) : List String → Prop where
  | attribute {a : Attribute} (ha : a ∈ shape.attributes) : Contains shape [a.name]
  | child {a : Attribute} {name : String} (ha : a ∈ shape.attributes) (hname : name ∈ a.children) :
      Contains shape [a.name, name]

/-- Whether a shape ends at a path: it lists no children of the last component.  Children have none. -/
inductive EndsAt (shape : RecordShape) : List String → Prop where
  | attribute {a : Attribute} (ha : a ∈ shape.attributes) (hnone : a.children = []) :
      EndsAt shape [a.name]
  | child {a : Attribute} {name : String} (ha : a ∈ shape.attributes) (hname : name ∈ a.children) :
      EndsAt shape [a.name, name]

/-- Whether a path lies in a shape as far as the shape goes. -/
def Follows (shape : RecordShape) (path : List String) : Prop :=
  ∃ known below, path = known ++ below ∧ shape.Contains known ∧ (below = [] ∨ shape.EndsAt known)

/-- Which path an expression selects, its outer blanks aside: that of a flattened name, or else its
components, none of them empty, if the first is an attribute and the second a child of it, should the
attribute have any. -/
inductive Selects (shape : RecordShape) (expression : String) : List String → Prop where
  | flattened {path : List String} (hne : trimmed expression ≠ "")
      (hmem : (trimmed expression, path) ∈ shape.allNames) : Selects shape expression path
  | components {first : String} {below : List String} {a : Attribute}
      (hnew : trimmed expression ∉ shape.allNames.map Prod.fst)
      (hparts : (dotted (trimmed expression)).map trimmed = first :: below)
      (hne : "" ∉ first :: below) (hfirst : shape.attribute? first = some a)
      (hsecond : ∀ second ∈ below.head?, a.children = [] ∨ second ∈ a.children) :
      Selects shape expression (first :: below)

variable {shape : RecordShape} {expression name : String} {path : List String}

/-- An attribute that is found is one of the shape, and has the name. -/
theorem mem_of_attribute? {a : Attribute} (h : shape.attribute? name = some a) :
    a ∈ shape.attributes ∧ a.name = name := by
  constructor
  · exact List.mem_of_find?_eq_some h
  · have hname := List.find?_some h
    exact eq_of_beq hname

/-- The path of a flattened name lies in the shape. -/
theorem contains_of_mem (h : (name, path) ∈ shape.allNames) : shape.Contains path := by
  obtain ⟨a, ha, hflat⟩ := List.mem_flatMap.mp h
  rw [Attribute.flattened] at hflat
  split at hflat
  · obtain ⟨child, hchild, heq⟩ := List.mem_map.mp hflat
    cases heq
    exact .child ha hchild
  · cases List.mem_singleton.mp hflat
    exact .attribute ha

/-- A selected path lies in the shape as far as the shape goes. -/
theorem Selects.follows (h : shape.Selects expression path) : shape.Follows path := by
  cases h with
  | flattened _ hmem => exact ⟨path, [], (List.append_nil path).symm, contains_of_mem hmem, .inl rfl⟩
  | @components first below a _ _ _ hfirst hsecond =>
      obtain ⟨ha, rfl⟩ := mem_of_attribute? hfirst
      cases below with
      | nil => exact ⟨[a.name], [], rfl, .attribute ha, .inl rfl⟩
      | cons second below =>
          rcases hsecond second rfl with hnone | hchild
          · exact ⟨[a.name], second :: below, rfl, .attribute ha, .inr (.attribute ha hnone)⟩
          · exact ⟨[a.name, second], below, rfl, .child ha hchild, .inr (.child ha hchild)⟩

/-- An empty expression selects nothing: its only component is empty. -/
theorem not_selects_of_empty (h : trimmed expression = "") : ¬ shape.Selects expression path := by
  have hone : (dotted "").map trimmed = [""] := by decide +kernel
  intro hselects
  cases hselects with
  | flattened hne _ => exact hne h
  | components _ hparts hne _ _ =>
      rw [h, hone] at hparts
      rw [← hparts] at hne
      exact hne List.mem_cons_self

end RecordShape

namespace Resolver

/-! ## Expressions that are refused -/

/-- Whether an expression is refused for one cause, whatever it is compiled for and whatever is
stored. -/
structure Refuses (r : Resolver) (expression : String) (cause : SelectorFault) : Prop where
  path : r.path expression = .error (.selector cause)
  selector : ∀ σ, r.compile σ (.str expression) = .error (.selector cause)
  display : ∀ σ, r.compileDisplay σ (.str expression) = .error (.selector cause)
  key : ∀ σ, r.compileKey σ (.str expression) = .error (.selector cause)
  setter : ∀ σ, r.compileSetter σ (.str expression) = .error (.selector cause)
  target : ∀ σ, r.compileTarget σ (.str expression) = .error (.selector cause)

variable {r : Resolver} {shape : RecordShape} {expression : String} {path : List String}

/-- What is no path compiles to nothing. -/
theorem refuses_of_path {cause : SelectorFault} (h : r.path expression = .error (.selector cause)) :
    r.Refuses expression cause where
  path := h
  selector σ := by rw [compile, h]; rfl
  display σ := by rw [compileDisplay, compile, h]; rfl
  key σ := by rw [compileKey, compile, h]; rfl
  setter σ := by rw [compileSetter, h]; rfl
  target σ := by rw [compileTarget, compile, h]; rfl

/-- A dotted path passes the check as it is, and does so exactly where it is one. -/
theorem checkPath_eq_ok_iff {first : String} {below found : List String} :
    r.checkPath expression (first :: below) = .ok found ↔
      found = first :: below ∧ "" ∉ first :: below ∧ ∃ a, r.shape.attribute? first = some a ∧
        ∀ second ∈ below.head?, a.children = [] ∨ second ∈ a.children := by
  have hempty : (first :: below).any String.isEmpty = true ↔ "" ∈ first :: below := by
    simp [List.any_eq_true, String.isEmpty_iff]
  rw [checkPath]
  by_cases hmalformed : "" ∈ first :: below
  · rw [if_pos (hempty.mpr hmalformed)]
    exact iff_of_false (by simp) fun h => h.2.1 hmalformed
  · rw [if_neg (mt hempty.mp hmalformed)]
    dsimp only [List.head?_cons, Option.getD_some]
    cases hfirst : r.shape.attribute? first with
    | none =>
        refine iff_of_false (by simp) ?_
        rintro ⟨-, -, a, ha, -⟩
        cases ha
    | some a =>
        -- the answer is the path itself wherever its second component is accepted
        have hkept : (∀ second ∈ below.head?, a.children = [] ∨ second ∈ a.children) →
            ((Except.ok (first :: below) : Except Fault (List String)) = .ok found ↔
              found = first :: below ∧ "" ∉ first :: below ∧ ∃ b, some a = some b ∧
                ∀ second ∈ below.head?, b.children = [] ∨ second ∈ b.children) := fun hsecond =>
          ⟨fun hok => ⟨(Except.ok.inj hok).symm, hmalformed, a, rfl, hsecond⟩,
            fun h => congrArg Except.ok h.1.symm⟩
        cases below with
        | nil => exact hkept (by simp)
        | cons second below =>
            show (if a.children.isEmpty || a.hasChild second then _ else _) = _ ↔ _
            by_cases hsecond : a.children = [] ∨ second ∈ a.children
            · rw [if_pos (by simpa [Attribute.hasChild] using hsecond)]
              exact hkept (by simpa using hsecond)
            · rw [if_neg (by simpa [Attribute.hasChild] using hsecond)]
              refine iff_of_false (by simp) ?_
              rintro ⟨-, -, b, hb, hchild⟩
              cases hb
              exact hsecond (hchild second rfl)

/-- What fails the check is refused for a cause of its own. -/
theorem checkPath_error {fault : Fault} (h : r.checkPath expression path = .error fault) :
    ∃ cause, fault = .selector cause := by
  rw [checkPath] at h
  split at h
  · exact ⟨_, (Except.error.inj h).symm⟩
  · dsimp only at h
    split at h
    · exact ⟨_, (Except.error.inj h).symm⟩
    · split at h
      · split at h
        · cases h
        · exact ⟨_, (Except.error.inj h).symm⟩
      · cases h

/-- An expression that is no path is refused for a cause of its own. -/
theorem path_error {fault : Fault} (h : r.path expression = .error fault) :
    ∃ cause, fault = .selector cause := by
  rw [Resolver.path] at h
  split at h
  · exact ⟨_, (Except.error.inj h).symm⟩
  · split at h
    · cases h
    · exact checkPath_error h

/-! ## Expressions that select paths -/

/-- The resolver of a shape knows its flattened names, which are different. -/
theorem names_of_ofShape (h : ofShape shape = .ok r) :
    r.shape = shape ∧ r.names = shape.allNames ∧ (shape.allNames.map Prod.fst).Nodup := by
  rw [ofShape] at h
  cases hnames : shape.flatten with
  | error fault =>
      rw [hnames] at h
      cases h
  | ok names =>
      rw [hnames] at h
      cases h
      have hnodup := RecordShape.nodup_of_flatten hnames
      have hall := RecordShape.eq_allNames_of_flatten hnames
      exact ⟨rfl, hall, hall ▸ hnodup⟩

/-- An expression has the path that it selects in the shape. -/
theorem path_eq_ok_iff (h : ofShape shape = .ok r) :
    r.path expression = .ok path ↔ shape.Selects expression path := by
  obtain ⟨rfl, hnames, hnodup⟩ := names_of_ofShape h
  have hparts : ∃ first below, (dotted (trimmed expression)).map trimmed = first :: below := by
    refine List.exists_cons_of_ne_nil ?_
    rw [dotted, List.map_map, ne_eq, List.map_eq_nil_iff]
    exact splitOn_ne_nil _ _
  obtain ⟨first, below, hfirst⟩ := hparts
  rw [Resolver.path, hnames, hfirst]
  by_cases hempty : trimmed expression = ""
  · rw [if_pos (by rw [hempty]; rfl)]
    exact iff_of_false (by simp) (RecordShape.not_selects_of_empty hempty)
  · rw [if_neg (by simpa [String.isEmpty_iff] using hempty)]
    -- a flattened name stands for its own path, and only other expressions are taken component by component
    cases hlookup : r.shape.allNames.lookup (trimmed expression) with
    | some found =>
        have hfound := (Value.lookup_eq_some_iff_mem hnodup).mp hlookup
        constructor
        · intro hpath
          cases hpath
          exact .flattened hempty hfound
        · rintro (⟨-, hmem⟩ | ⟨hnew, -, -, -, -⟩)
          · rw [(Value.lookup_eq_some_iff_mem hnodup).mpr hmem] at hlookup
            exact congrArg Except.ok (Option.some.inj hlookup).symm
          · exact absurd (List.mem_map_of_mem hfound) hnew
    | none =>
        have hnew : trimmed expression ∉ r.shape.allNames.map Prod.fst := by
          intro hmem
          obtain ⟨⟨name, found⟩, hfound, rfl⟩ := List.mem_map.mp hmem
          rw [(Value.lookup_eq_some_iff_mem hnodup).mpr hfound] at hlookup
          cases hlookup
        show r.checkPath expression (first :: below) = _ ↔ _
        rw [checkPath_eq_ok_iff]
        constructor
        · rintro ⟨rfl, hne, a, ha, hsecond⟩
          exact .components hnew hfirst hne ha hsecond
        · rintro (⟨-, hmem⟩ | ⟨-, hcomponents, hne, ha, hsecond⟩)
          · exact absurd (List.mem_map_of_mem hmem) hnew
          · obtain ⟨rfl, rfl⟩ := List.cons.inj (hfirst.symm.trans hcomponents)
            exact ⟨rfl, hne, _, ha, hsecond⟩

/-- The path of an expression lies in the shape as far as the shape goes; it is the one that the
expression selects there.  An expression that selects none is refused with a fault about selectors, before
any record is read. -/
theorem path_follows_shape (h : ofShape shape = .ok r) (expression : String) :
    (∀ path, r.path expression = .ok path → shape.Follows path) ∧
    (∀ path, r.path expression = .ok path ↔ shape.Selects expression path) ∧
    ((∀ path, ¬ shape.Selects expression path) → ∃ cause, r.Refuses expression cause) := by
  refine ⟨fun path hpath => ((path_eq_ok_iff h).mp hpath).follows, fun path => path_eq_ok_iff h, ?_⟩
  intro hnone
  cases hpath : r.path expression with
  | ok path => exact absurd ((path_eq_ok_iff h).mp hpath) (hnone path)
  | error fault =>
      obtain ⟨cause, rfl⟩ := path_error hpath
      exact ⟨cause, refuses_of_path hpath⟩

/-- A shape with an attribute that has children and one that has none. -/
def addressShape : RecordShape :=
  ⟨"Student", [⟨"Grade", []⟩, ⟨"Address", ["City", "Zip"]⟩]⟩

/-- A child that the shape does not list, and a path that goes on below a child that it lists. -/
theorem path_follows_shape_address : ∃ r, ofShape addressShape = .ok r ∧
    (∃ cause, r.Refuses "Address.Street" cause) ∧
    r.path " Address . City.Name" = .ok ["Address", "City", "Name"] ∧
    addressShape.Follows ["Address", "City", "Name"] := by
  have hshape : ofShape addressShape = .ok ⟨addressShape, addressShape.allNames⟩ := rfl
  refine ⟨⟨addressShape, addressShape.allNames⟩, hshape, ?_⟩
  obtain ⟨-, -, hrefused⟩ := path_follows_shape hshape "Address.Street"
  obtain ⟨hfollows, -, -⟩ := path_follows_shape hshape " Address . City.Name"
  have hstreet : (⟨addressShape, addressShape.allNames⟩ : Resolver).path "Address.Street"
      = .error (.selector (.unknownChild "Street" "Address" "'Address.Street'")) := by decide +kernel
  have hcity : (⟨addressShape, addressShape.allNames⟩ : Resolver).path " Address . City.Name"
      = .ok ["Address", "City", "Name"] := by decide +kernel
  refine ⟨hrefused fun path hselects => ?_, hcity, hfollows _ hcity⟩
  rw [(path_eq_ok_iff hshape).mpr hselects] at hstreet
  cases hstreet

/-- A path may leave the shape below an attribute without children. -/
theorem not_contains_of_any_path :
    ¬ ∀ (shape : RecordShape) (r : Resolver), ofShape shape = .ok r →
      ∀ expression path, r.path expression = .ok path → shape.Contains path := by
  intro hall
  let shape : RecordShape := ⟨"dict", [⟨"Grade", []⟩]⟩
  have hpath : (⟨shape, shape.allNames⟩ : Resolver).path "Grade.x" = .ok ["Grade", "x"] := by
    decide +kernel
  have houtside : ∀ path, shape.Contains path → path.length = 1 := by
    rintro path (ha | ⟨ha, hname⟩)
    · rfl
    · rw [List.mem_singleton.mp ha] at hname
      cases hname
  have hlength := houtside _ (hall shape ⟨shape, shape.allNames⟩ rfl "Grade.x" _ hpath)
  cases hlength

end Resolver

end Rubric
