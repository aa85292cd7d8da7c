import Rubric.Value.Basic

/-!
# Bindings

A binder is a table of named values.  Each binding says what kind of thing its value is, so a
script can tell a selector from a plain value.  A name is added once and rebound freely after;
names keep the order in which they were added.
-/

namespace Rubric

/-- What a binding's value is. -/
inductive BindingKind where
  | literal
  /-- A function from records to values. -/
  | selector
  /-- A relation between records. -/
  | predicate
  | collection
  | mapping
  /-- A field of the current item that scripts write. -/
  | target
  deriving DecidableEq, Repr

/-- The name of a kind. -/
def BindingKind.name : BindingKind → String
  | literal => "literal"
  | selector => "selector"
  | predicate => "predicate"
  | collection => "collection"
  | mapping => "mapping"
  | target => "target"

/-- The kind of that name. -/
def BindingKind.ofName? (s : String) : Option BindingKind :=
  [literal, selector, predicate, collection, mapping, target].find? fun k => k.name == s

/-- The kind of a value registered without one. -/
def BindingKind.infer : Value → BindingKind
  | .mapping _ => mapping
  | .list _ _ => collection
  | .tuple _ => collection
  | .row _ _ _ => collection
  | v => if v.isCallable then selector else literal

/-- A named value and its kind. -/
structure Binding where
  name : String
  value : Value
  kind : BindingKind

/-- The shown form of a binding. -/
def Binding.shown (b : Binding) : String := s!"Binding({b.name}, {b.kind.name})"

/-- Named values, in the order in which they were added. -/
structure Binder where
  bindings : List Binding
  deriving Inhabited

namespace Binder

/-- The binder without bindings. -/
def empty : Binder := ⟨[]⟩

/-- The binding of a name. -/
def get? (b : Binder) (name : String) : Option Binding :=
  b.bindings.find? fun binding => binding.name == name

/-- Whether a name is bound. -/
def contains (b : Binder) (name : String) : Bool := (b.get? name).isSome

/-- The bound names, in order. -/
def names (b : Binder) : List String := b.bindings.map Binding.name

/-- Names and values, in order. -/
def snapshot (b : Binder) : List (String × Value) :=
  b.bindings.map fun binding => (binding.name, binding.value)

/-- The binding of a name, or the fault of an unknown one. -/
def get (b : Binder) (name : String) : Except Fault Binding :=
  match b.get? name with
  | some binding => .ok binding
  | none => .error (.unknownBinding name)

/-- The binder with a new name; the kind is that of the value unless one is given. -/
def add (b : Binder) (name : String) (value : Value) (kind : Option BindingKind) :
    Except Fault Binder :=
  if b.contains name then .error (.duplicateBinding name)
  else .ok ⟨b.bindings ++ [⟨name, value, kind.getD (.infer value)⟩]⟩

/-- The binder with a name's value changed, and its kind where one is given. -/
def rebind (b : Binder) (name : String) (value : Value) (kind : Option BindingKind) : Binder :=
  ⟨b.bindings.map fun binding =>
    if binding.name = name then
      { binding with value := value, kind := kind.getD binding.kind }
    else binding⟩

/-- Changes a name's value, and its kind where one is given. -/
def set (b : Binder) (name : String) (value : Value) (kind : Option BindingKind) :
    Except Fault Binder :=
  if b.contains name then .ok (b.rebind name value kind) else .error (.unknownBinding name)

/-- Rebinding keeps the names and their order. -/
@[simp] theorem names_rebind (b : Binder) (name : String) (value : Value)
    (kind : Option BindingKind) : (b.rebind name value kind).names = b.names := by
  simp only [rebind, names, List.map_map]
  apply List.map_congr_left
  intro binding _
  simp only [Function.comp]
  split <;> rfl

end Binder

end Rubric
