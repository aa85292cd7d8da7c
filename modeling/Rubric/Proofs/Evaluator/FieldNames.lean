import Rubric.Evaluator
import Rubric.Proofs.Text.Trimming
import Rubric.Proofs.Value.DataForm

/-!
# Field names and the attributes they select

The flattened names of a shape are looked up after their outer blanks are taken off.  A name without such
selects its own attribute: the names are distinct, so it is found before it is taken for a dotted path.  A
name with outer blanks, or without characters, does not: what it is found as, or split into, has none.  So
an evaluator whose field names have no outer blanks binds each to the selector of its attribute.

* `mem_names_iff` : what the flattened names are;
* `path_eq_iff` : which names select their own attribute;
* `field_names_select_themselves` : so evaluators bind them.
-/

namespace Rubric

open Rubric.Text

/-! ## The flattened names of a shape -/

/-- Where no name occurs earlier, all are different. -/
theorem nodup_of_firstRepeated {names : List String} :
    ∀ {seen : List String}, firstRepeated seen names = none →
      names.Nodup ∧ ∀ name ∈ names, name ∉ seen := by
  induction names with
  | nil => exact fun _ => ⟨.nil, nofun⟩
  | cons name names ih =>
      intro seen h
      rw [firstRepeated] at h
      split at h
      · cases h
      · rename_i hnew
        obtain ⟨hnodup, hapart⟩ := ih h
        refine ⟨List.nodup_cons.mpr ⟨fun hmem => hapart name hmem List.mem_cons_self, hnodup⟩, ?_⟩
        refine List.forall_mem_cons.mpr ⟨by simpa using hnew, fun other hother hseen => ?_⟩
        exact hapart other hother (.tail name hseen)

namespace RecordShape

variable {shape : RecordShape} {names : List (String × List String)} {name : String} {path : List String}

/-- The names of a shape that can be flattened are all its names. -/
theorem eq_allNames_of_flatten (h : shape.flatten = .ok names) : names = shape.allNames := by
  rw [flatten] at h
  split at h
  · cases h
  · exact (Except.ok.inj h).symm

/-- The names of a shape that can be flattened are different. -/
theorem nodup_of_flatten (h : shape.flatten = .ok names) : (names.map Prod.fst).Nodup := by
  rw [flatten] at h
  split at h
  · cases h
  · rename_i hnone
    cases h
    exact (nodup_of_firstRepeated hnone).1

/-- Each is that of an attribute, or joins those of an attribute and a child. -/
theorem path_of_mem (h : shape.flatten = .ok names) (hmem : (name, path) ∈ names) :
    path = [name] ∨ ∃ parent child, path = [parent, child] ∧ name = parent ++ "_" ++ child := by
  rw [eq_allNames_of_flatten h, allNames, List.mem_flatMap] at hmem
  obtain ⟨a, -, ha⟩ := hmem
  rw [Attribute.flattened] at ha
  split at ha
  · obtain ⟨child, -, heq⟩ := List.mem_map.mp ha
    cases heq
    exact .inr ⟨a.name, child, rfl, rfl⟩
  · cases List.mem_singleton.mp ha
    exact .inl rfl

/-- No two names have one path. -/
theorem name_unique (h : shape.flatten = .ok names) {other : String} (hname : (name, path) ∈ names)
    (hother : (other, path) ∈ names) : other = name := by
  rcases path_of_mem h hname with rfl | ⟨parent, child, rfl, rfl⟩
  · rcases path_of_mem h hother with heq | ⟨_, _, heq, -⟩
    · exact ((List.cons.inj heq).1).symm
    · simp at heq
  · rcases path_of_mem h hother with heq | ⟨parent', child', heq, rfl⟩
    · simp at heq
    · simp only [List.cons.injEq, and_true] at heq
      rw [heq.1, heq.2]

end RecordShape

/-! ## Which names select their own attributes -/

namespace Resolver

/-- A path that passes the check is kept. -/
theorem eq_of_checkPath {r : Resolver} {expression : String} {path found : List String}
    (h : r.checkPath expression path = .ok found) : found = path := by
  rw [checkPath] at h
  split at h
  · cases h
  · cases hattribute : r.shape.attribute? (path.head?.getD "") with
    | none =>
        simp only [hattribute] at h
        cases h
    | some a =>
        simp only [hattribute] at h
        split at h
        · split at h
          · exact (Except.ok.inj h).symm
          · cases h
        · exact (Except.ok.inj h).symm

variable {shape : RecordShape} {names : List (String × List String)} {name : String} {path : List String}

/-- A flattened name selects its own attribute exactly where it has characters and no outer blanks. -/
theorem path_eq_iff (h : shape.flatten = .ok names) (hmem : (name, path) ∈ names) :
    (⟨shape, names⟩ : Resolver).path name = .ok path ↔ trimmed name = name ∧ name ≠ "" := by
  have hnodup := RecordShape.nodup_of_flatten h
  constructor
  · intro hpath
    rw [Resolver.path] at hpath
    split at hpath
    · cases hpath
    · rename_i hempty
      have hname : trimmed name = name := by
        -- what the name is found as, or what it is split into, has no outer blanks
        split at hpath
        · rename_i found hfound
          cases hpath
          exact RecordShape.name_unique h hmem ((Value.lookup_eq_some_iff_mem hnodup).mp hfound)
        · have heq := eq_of_checkPath hpath
          have hparts : ∀ part ∈ path, trimmed part = part := by
            rw [heq]
            exact List.forall_mem_map.mpr fun part _ => trimmed_trimmed part
          rcases RecordShape.path_of_mem h hmem with rfl | ⟨parent, child, rfl, rfl⟩
          · exact hparts name (by simp)
          · exact trimmed_joined (hparts parent (by simp)) (hparts child (by simp))
      refine ⟨hname, fun hnone => hempty ?_⟩
      rw [hname, hnone]
      rfl
  · rintro ⟨hname, hnone⟩
    have hempty : ¬ name.isEmpty = true := by simpa using hnone
    rw [Resolver.path, hname, if_neg hempty, (Value.lookup_eq_some_iff_mem hnodup).mpr hmem]

end Resolver

/-! ## The bindings of a new evaluator -/

namespace Evaluator

/-- The binding of a field to the selector of its attribute. -/
def fieldBinding (entry : String × List String) : Binding :=
  ⟨entry.1, .selector (.path entry.1 entry.2), .selector⟩

/-- A new name is added at the end. -/
theorem add_of_new {b : Binder} {name : String} (h : name ∉ b.names) (value : Value)
    (kind : BindingKind) : b.add name value (some kind) = .ok ⟨b.bindings ++ [⟨name, value, kind⟩]⟩ := by
  have hfree : ¬ b.contains name = true := by
    intro hbound
    rw [Binder.contains, Binder.get?, List.find?_isSome] at hbound
    obtain ⟨binding, hbinding, hname⟩ := hbound
    exact h (List.mem_map.mpr ⟨binding, hbinding, by simpa using hname⟩)
  rw [Binder.add, if_neg hfree]
  rfl

/-- A bound name is not added. -/
theorem add_of_bound {b : Binder} {name : String} (h : name ∈ b.names) (value : Value)
    (kind : Option BindingKind) : b.add name value kind = .error (.duplicateBinding name) := by
  obtain ⟨binding, hbinding, hname⟩ := List.mem_map.mp h
  have hbound : b.contains name = true := by
    rw [Binder.contains, Binder.get?, List.find?_isSome]
    exact ⟨binding, hbinding, by simpa using hname⟩
  rw [Binder.add, if_pos hbound]

/-- Fields whose names select their own attributes are all bound to these. -/
theorem bindFields_of_paths {r : Resolver} {entries : List (String × List String)}
    (hpaths : ∀ entry ∈ entries, r.path entry.1 = .ok entry.2) :
    ∀ {b : Binder}, (b.names ++ entries.map Prod.fst).Nodup →
      bindFields r b (entries.map Prod.fst) = .ok ⟨b.bindings ++ entries.map fieldBinding⟩ := by
  induction entries with
  | nil =>
      intro b _
      rw [List.map_nil, List.map_nil, List.append_nil]
      rfl
  | cons entry entries ih =>
      intro b hnodup
      obtain ⟨hpath, hrest⟩ := List.forall_mem_cons.mp hpaths
      have hnew : entry.1 ∉ b.names := fun hmem =>
        (List.nodup_append.mp hnodup).2.2 _ hmem _ List.mem_cons_self rfl
      have hcompile : r.compile .empty (.str entry.1) = .ok (.path entry.1 entry.2) := by
        rw [Resolver.compile, hpath]
        rfl
      have hnext := ih hrest (b := ⟨b.bindings ++ [fieldBinding entry]⟩)
        (by simpa [Binder.names, fieldBinding] using hnodup)
      rw [List.map_cons, bindFields, hcompile]
      show (b.add entry.1 (.selector (.path entry.1 entry.2)) (some .selector) >>= _) = _
      rw [add_of_new hnew]
      refine Eq.trans hnext ?_
      rw [List.append_assoc, List.singleton_append, List.map_cons]

/-- Reserved names are bound unless one is bound before. -/
theorem bindReserved_cases {entries : List (String × BindingKind)}
    (hnodup : (entries.map Prod.fst).Nodup) :
    ∀ b : Binder,
      bindReserved b entries
          = .ok ⟨b.bindings ++ entries.map fun entry => ⟨entry.1, .null, entry.2⟩⟩ ∨
        ∃ name ∈ entries.map Prod.fst, name ∈ b.names ∧
          bindReserved b entries = .error (.duplicateBinding name) := by
  induction entries with
  | nil =>
      intro b
      refine .inl ?_
      rw [List.map_nil, List.append_nil]
      rfl
  | cons entry entries ih =>
      intro b
      obtain ⟨hentry, hnodup⟩ := List.nodup_cons.mp hnodup
      by_cases hbound : entry.1 ∈ b.names
      · refine .inr ⟨entry.1, List.mem_cons_self, hbound, ?_⟩
        rw [bindReserved, add_of_bound hbound]
        rfl
      · have hadd := add_of_new hbound .null entry.2
        rw [bindReserved, hadd]
        refine (ih hnodup ⟨b.bindings ++ [⟨entry.1, .null, entry.2⟩]⟩).imp (fun h => ?_) ?_
        · refine Eq.trans h ?_
          rw [List.append_assoc, List.singleton_append, List.map_cons]
        · rintro ⟨name, hname, hbefore, herror⟩
          have hbefore : name ∈ b.names ∨ name = entry.1 := by
            simpa [Binder.names] using hbefore
          refine ⟨name, .tail _ hname, hbefore.resolve_right fun heq => hentry (heq ▸ hname), herror⟩

variable {shape : RecordShape} {names : List (String × List String)}

/-- Among different names the binding of each is found. -/
theorem find?_fieldBinding (h : (names.map Prod.fst).Nodup) {entry : String × List String}
    (hentry : entry ∈ names) :
    (names.map fieldBinding).find? (fun binding => binding.name == entry.1)
      = some (fieldBinding entry) := by
  have hfound : names.find? (fun other => other.1 == entry.1) = some entry := by
    cases hfind : names.find? fun other => other.1 == entry.1 with
    | none => exact absurd (List.find?_eq_none.mp hfind entry hentry) (by simp)
    | some other =>
        have hname : other.1 = entry.1 := by simpa using List.find?_some hfind
        rw [List.inj_on_of_nodup_map h (List.mem_of_find?_eq_some hfind) hentry hname]
  rw [List.find?_map]
  exact congrArg (Option.map fieldBinding) hfound

/-- A flattened name selects its own attribute exactly where it has characters and no outer blanks.
Where all have, a new evaluator binds each to the selector of its attribute, unless one is the name of a
reserved binding, which is refused as bound twice. -/
theorem field_names_select_themselves (h : shape.flatten = .ok names) :
    Resolver.ofShape shape = .ok ⟨shape, names⟩ ∧
      (∀ entry ∈ names, (⟨shape, names⟩ : Resolver).path entry.1 = .ok entry.2 ↔
        trimmed entry.1 = entry.1 ∧ entry.1 ≠ "") ∧
      ∀ e : Evaluator, e.resolver = ⟨shape, names⟩ →
        (∀ name ∈ e.fields, trimmed name = name ∧ name ≠ "") →
          (∃ b, e.initialBinder = .ok b ∧ ∀ entry ∈ names, b.get? entry.1 = some (fieldBinding entry)) ∨
            ∃ name ∈ e.fields, name ∈ reservedBindings.map Prod.fst ∧
              e.initialBinder = .error (.duplicateBinding name) := by
  have hpath : ∀ entry ∈ names, (⟨shape, names⟩ : Resolver).path entry.1 = .ok entry.2 ↔
      trimmed entry.1 = entry.1 ∧ entry.1 ≠ "" := fun entry hentry => Resolver.path_eq_iff h hentry
  refine ⟨by rw [Resolver.ofShape, h]; rfl, hpath, fun e he hfields => ?_⟩
  have hnodup := RecordShape.nodup_of_flatten h
  have hnames : e.fields = names.map Prod.fst := by rw [fields, he]
  have hbound : bindFields e.resolver .empty e.fields = .ok ⟨names.map fieldBinding⟩ := by
    rw [he, hnames]
    refine bindFields_of_paths (fun entry hentry => (hpath entry hentry).mpr ?_) hnodup
    exact hfields entry.1 (hnames ▸ List.mem_map_of_mem hentry)
  have hstart : e.initialBinder = bindReserved ⟨names.map fieldBinding⟩ reservedBindings := by
    rw [initialBinder, hbound]
    rfl
  have hreserved : (reservedBindings.map Prod.fst).Nodup := by decide
  rcases bindReserved_cases hreserved ⟨names.map fieldBinding⟩ with hok | ⟨name, hname, hclash, herror⟩
  · refine .inl ⟨_, hstart.trans hok, fun entry hentry => ?_⟩
    rw [Binder.get?, List.find?_append, find?_fieldBinding hnodup hentry, Option.some_or]
  · have hfield : name ∈ e.fields := by
      simpa [hnames, Binder.names, fieldBinding, Function.comp_def] using hclash
    exact .inr ⟨name, hfield, hname, hstart.trans herror⟩

/-- A shape with a name and an address of two parts. -/
def addressShape : RecordShape := ⟨"dict", [⟨"Name", []⟩, ⟨"Address", ["City", "Zip"]⟩]⟩

/-- Its names and their paths. -/
def addressNames : List (String × List String) :=
  [("Name", ["Name"]), ("Address_City", ["Address", "City"]), ("Address_Zip", ["Address", "Zip"])]

/-- An evaluator of records of this shape. -/
def addressEvaluator : Evaluator := ⟨⟨addressShape, addressNames⟩, scriptEngine, .none, .none⟩

/-- It binds each name to its attribute. -/
theorem field_names_select_themselves_address :
    (∀ entry ∈ addressNames, addressEvaluator.resolver.path entry.1 = .ok entry.2) ∧
      ∃ b, addressEvaluator.initialBinder = .ok b ∧
        ∀ entry ∈ addressNames, b.get? entry.1 = some (fieldBinding entry) := by
  have hflatten : addressShape.flatten = .ok addressNames := by decide
  obtain ⟨-, hpath, hbound⟩ := field_names_select_themselves hflatten
  have hnames : ∀ entry ∈ addressNames, trimmed entry.1 = entry.1 ∧ entry.1 ≠ "" := by decide +kernel
  refine ⟨fun entry hentry => (hpath entry hentry).mpr (hnames entry hentry), ?_⟩
  rcases hbound addressEvaluator rfl (List.forall_mem_map.mpr hnames) with
    hok | ⟨name, hname, hreserved, -⟩
  · exact hok
  · have hapart : ∀ name ∈ addressNames.map Prod.fst, name ∉ reservedBindings.map Prod.fst := by decide
    exact absurd hreserved (hapart name hname)

/-- Of two attributes whose names differ by a blank in front, the name of the one selects the other. -/
theorem not_path_of_any_field_name :
    ¬ ∀ (shape : RecordShape) (names : List (String × List String)), shape.flatten = .ok names →
      ∀ entry ∈ names, (⟨shape, names⟩ : Resolver).path entry.1 = .ok entry.2 := by
  intro hall
  have hpath := hall ⟨"dict", [⟨" a", []⟩, ⟨"a", []⟩]⟩ [(" a", [" a"]), ("a", ["a"])] (by decide)
    (" a", [" a"]) List.mem_cons_self
  have hother : (⟨⟨"dict", [⟨" a", []⟩, ⟨"a", []⟩]⟩, [(" a", [" a"]), ("a", ["a"])]⟩ : Resolver).path " a"
      = .ok ["a"] := by decide +kernel
  rw [hother] at hpath
  exact absurd hpath (by decide)

end Evaluator

end Rubric
