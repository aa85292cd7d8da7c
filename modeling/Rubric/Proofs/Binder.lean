import Rubric.Binder

/-!
# Binders that differ in some values

Two binders can bind the same names, as the same kinds, and differ only in the values of some of
them.  Binding such a name to one value in both makes them agree on it.

* `Binder.SameBut.rebind` : what binders differ in shrinks as names are bound alike;
* `Binder.SameBut.get?_eq` : the other names are bound alike.
-/

namespace Rubric

/-- A binding whose value is forgotten where its name is among some. -/
def Binding.blank (names : List String) (binding : Binding) : Binding :=
  if binding.name ∈ names then { binding with value := .null } else binding

/-- Forgetting a value keeps the name. -/
@[simp] theorem Binding.name_blank (names : List String) (binding : Binding) :
    (binding.blank names).name = binding.name := by
  unfold blank
  split <;> rfl

namespace Binder

/-- A binder with the values of some names forgotten. -/
def blank (names : List String) (b : Binder) : Binder := ⟨b.bindings.map (Binding.blank names)⟩

/-- Whether two binders bind the same names as the same kinds, and all but some of them to the same
values. -/
def SameBut (names : List String) (b b' : Binder) : Prop := b.blank names = b'.blank names

/-- Forgetting no name changes nothing. -/
@[simp] theorem blank_nil (b : Binder) : b.blank [] = b := by
  have hkept : Binding.blank [] = id := by
    funext binding
    simp [Binding.blank]
  rw [blank, hkept, List.map_id]

/-- Forgetting more names forgets those forgotten before. -/
theorem blank_blank {names more : List String} (h : names ⊆ more) (b : Binder) :
    (b.blank names).blank more = b.blank more := by
  simp only [blank, List.map_map, Binder.mk.injEq]
  apply List.map_congr_left
  intro binding _
  simp only [Function.comp, Binding.blank]
  by_cases hname : binding.name ∈ names
  · simp [hname, h hname]
  · simp [hname]

/-- The binding of a name where some values are forgotten. -/
theorem get?_blank (names : List String) (name : String) (b : Binder) :
    (b.blank names).get? name = (b.get? name).map (Binding.blank names) := by
  simp only [blank, get?, List.find?_map]
  congr 2
  funext binding
  simp

/-- Forgetting values keeps the names. -/
@[simp] theorem contains_blank (names : List String) (name : String) (b : Binder) :
    (b.blank names).contains name = b.contains name := by
  simp [contains, get?_blank]

/-- The name of the binding found is the one looked for. -/
theorem name_of_get? {b : Binder} {name : String} {binding : Binding}
    (h : b.get? name = some binding) : binding.name = name := by
  simpa using List.find?_some h

/-- The binding of a name after a value was changed. -/
theorem get?_rebind (b : Binder) (name other : String) (value : Value) :
    (b.rebind name value none).get? other
      = (b.get? other).map fun binding =>
          if other = name then { binding with value := value } else binding := by
  have hnames : ((fun binding : Binding => binding.name == other) ∘ fun binding =>
      if binding.name = name then { binding with value := value } else binding)
      = fun binding => binding.name == other := by
    funext binding
    by_cases hname : binding.name = name <;> simp [hname]
  simp only [get?, rebind, List.find?_map, Option.getD_none]
  rw [hnames]
  cases hfound : b.bindings.find? fun binding => binding.name == other with
  | none => rfl
  | some binding => simp [name_of_get? hfound]

/-- Changing a value and then forgetting values comes to changing it in what is left. -/
theorem blank_rebind (names : List String) (name : String) (value : Value) (b : Binder) :
    (b.rebind name value none).blank names
      = ((b.blank (name :: names)).rebind name value none).blank names := by
  simp only [blank, rebind, List.map_map, Binder.mk.injEq]
  apply List.map_congr_left
  intro binding _
  by_cases hname : binding.name = name
  · simp [hname, Binding.blank]
  · by_cases hforgotten : binding.name ∈ names <;> simp [hname, hforgotten, Binding.blank]

/-- Changing a value that is forgotten changes nothing. -/
theorem blank_rebind_of_mem {names : List String} {name : String} (h : name ∈ names) (value : Value)
    (b : Binder) : (b.rebind name value none).blank names = b.blank names := by
  simp only [blank, rebind, List.map_map, Binder.mk.injEq]
  apply List.map_congr_left
  intro binding _
  by_cases hname : binding.name = name
  · simp [hname, h, Binding.blank]
  · simp [hname]

/-- Changing a value keeps the names. -/
@[simp] theorem contains_rebind (b : Binder) (name other : String) (value : Value)
    (kind : Option BindingKind) : (b.rebind name value kind).contains other = b.contains other := by
  obtain ⟨bindings⟩ := b
  simp only [contains, get?, rebind, List.find?_map, Option.isSome_map]
  congr 2
  funext binding
  by_cases hname : binding.name = name <;> simp [hname]

/-- Changing two different names in either order. -/
theorem rebind_comm {first second : String} (h : first ≠ second) (value value' : Value) (b : Binder) :
    (b.rebind first value none).rebind second value' none
      = (b.rebind second value' none).rebind first value none := by
  simp only [rebind, List.map_map, Binder.mk.injEq]
  apply List.map_congr_left
  intro binding _
  by_cases hfirst : binding.name = first
  · have hsecond : ¬ binding.name = second := fun hsecond => h (hfirst.symm.trans hsecond)
    simp [hfirst, h]
  · by_cases hsecond : binding.name = second
    · have hother : ¬ second = first := fun hother => h hother.symm
      simp [hsecond, hother]
    · simp [hfirst, hsecond]

namespace SameBut

variable {names more : List String} {b b' : Binder}

/-- A binder differs from itself in nothing. -/
theorem refl (names : List String) (b : Binder) : b.SameBut names b := rfl

/-- Differing in fewer names is differing in more. -/
theorem mono (h : b.SameBut names b') (hsub : names ⊆ more) : b.SameBut more b' := by
  unfold SameBut
  rw [← blank_blank hsub b, h, blank_blank hsub b']

/-- Binders that differ in no name are equal. -/
theorem eq_of_nil (h : b.SameBut [] b') : b = b' := by
  simpa [SameBut] using h

/-- Both bind the same names. -/
theorem contains_eq (h : b.SameBut names b') (name : String) : b.contains name = b'.contains name := by
  rw [← contains_blank names name b, h, contains_blank]

/-- Both bind a name that they do not differ in alike. -/
theorem get?_eq (h : b.SameBut names b') {name : String} (hname : name ∉ names) :
    b.get? name = b'.get? name := by
  have hkept : ∀ b : Binder, (b.blank names).get? name = b.get? name := by
    intro b
    rw [get?_blank]
    cases hget : b.get? name with
    | none => rfl
    | some binding => simp [Binding.blank, name_of_get? hget, hname]
  rw [← hkept b, h, hkept b']

/-- Once a name is bound to the same value in both, they do not differ in it. -/
theorem rebind (h : b.SameBut (name :: names) b') (value : Value) :
    (b.rebind name value none).SameBut names (b'.rebind name value none) := by
  unfold SameBut
  rw [blank_rebind names name value b, h, ← blank_rebind]

/-- Binding a name alike in both keeps what they differ in, at most. -/
theorem rebind_both (h : b.SameBut names b') (name : String) (value : Value) :
    (b.rebind name value none).SameBut names (b'.rebind name value none) :=
  (h.mono (List.subset_cons_self _ _)).rebind value

/-- Binding one of the names makes no other difference. -/
theorem rebind_left (h : b.SameBut names b') {name : String} (hname : name ∈ names) (value : Value) :
    (b.rebind name value none).SameBut names b' :=
  (blank_rebind_of_mem hname value b).trans h

end SameBut

end Binder

end Rubric
