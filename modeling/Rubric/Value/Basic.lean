import Rubric.Fault
import Rubric.Number.Decimal

/-!
# Values and the store

Values are what records hold and scripts compute.  Lists, tuples and sets never change, so they
are plain trees; a list carries a tag, so that a list found inside itself is known.  Mappings and
objects change, so a value holds their address and their contents live in the `Store`.

A tag tells a value from those made before it.  Tags are numbered apart for every item of every run,
so the tags that an item gets do not depend on the items before it.
-/

namespace Rubric

open Rubric.Number

/-- A type of records with declared fields. -/
structure RecordType where
  name : String
  fields : List String
  /-- Instances show their fields and may be compared by them. -/
  structured : Bool
  /-- Instances with equal fields are equal. -/
  byValue : Bool
  /-- Fields keep the value they were made with. -/
  frozen : Bool
  deriving DecidableEq, Repr, Inhabited

/-- A compiled assignment to one path, or to several at once. -/
inductive Setter where
  | path (expression : String) (path : List String)
  | composite (parts : List Setter)
  deriving Repr, Inhabited

/-- What tells a value from others of the same content: which run and which item of it the value was
made for, where it was made for one, and its number among the values made there. -/
structure Tag where
  run : Nat
  item : Option Nat
  serial : Nat
  deriving DecidableEq, Repr, Inhabited

mutual

/-- A value of a record field or of a script expression. -/
inductive Value where
  | null
  | bool (b : Bool)
  | int (n : Int)
  | float (x : Binary64)
  /-- The result of arithmetic that is no number.  It differs from every value, and is found in
  collections by its tag only. -/
  | nan (tag : Tag)
  | str (s : String)
  | list (tag : Tag) (items : List Value)
  | tuple (items : List Value)
  /-- A tuple with named places. -/
  | row (tag : Tag) (type : RecordType) (items : List Value)
  | set (frozen : Bool) (items : List Value)
  | mapping (address : Nat)
  | object (address : Nat)
  | function (tag : Tag) (body : Function)
  | selector (s : Selector)
  | setter (s : Setter)
  | target (s : Selector) (assign : Option Setter)

/-- A compiled function from records to values. -/
inductive Selector where
  | path (expression : String) (path : List String)
  /-- Several selectors read at once, into a tuple. -/
  | composite (parts : List Selector)
  /-- A callable value, under the name it shows. -/
  | computed (expression : String) (callee : Value)
  /-- Another selector's value as text. -/
  | display (inner : Selector)
  /-- Another selector's value as something that can be looked up. -/
  | key (inner : Selector)

/-- A function that the embedding program supplies. -/
inductive Function where
  /-- Reads one field of a record by subscript. -/
  | field (name : String)
  | failing (message : String)
  | constant (value : Value)
  /-- Returns its arguments. -/
  | arguments
  | always
  | never
  /-- Two records are related when a key has the same value for both. -/
  | sameKey (key : Selector)
  /-- Two records are related when a field of one compares with that of the other. -/
  | comparing (path : List String) (operator : String)
  /-- A relation that fails. -/
  | failingRelation (message : String)

end

instance : Inhabited Value := ⟨.null⟩
instance : Inhabited Selector := ⟨.path "" []⟩
instance : Inhabited Function := ⟨.arguments⟩

/-! ## Selectors and setters -/

namespace Selector

/-- The expression that a selector was compiled from. -/
def expression : Selector → String
  | path text _ => text
  | composite parts => Text.join ", " (expressions parts)
  | computed text _ => text
  | display inner => inner.expression
  | key inner => inner.expression
where
  /-- The expressions of the parts. -/
  expressions : List Selector → List String
    | [] => []
    | part :: parts => part.expression :: expressions parts

/-- The attribute path that a selector reads, if it reads one. -/
def path? : Selector → Option (List String)
  | path _ names => some names
  | composite _ => none
  | computed _ _ => none
  | display inner => inner.path?
  | key inner => inner.path?

/-- The parts of a composite selector. -/
def parts : Selector → List Selector
  | composite ps => ps
  | _ => []

end Selector

namespace Setter

/-- The expression that a setter was compiled from. -/
def expression : Setter → String
  | path text _ => text
  | composite parts => Text.join ", " (expressions parts)
where
  /-- The expressions of the parts. -/
  expressions : List Setter → List String
    | [] => []
    | part :: parts => part.expression :: expressions parts

/-- How many values a setter assigns. -/
def width : Setter → Nat
  | path _ _ => 1
  | composite parts => parts.length

end Setter

/-! ## The store -/

/-- An instance of a record type: its attributes in the order they were assigned. -/
structure Object where
  type : RecordType
  attributes : List (String × Value)
  deriving Inhabited

/-- The contents of mappings and objects, the number of runs begun, and the next unused tag. -/
structure Store where
  mappings : Array (List (Value × Value))
  objects : Array Object
  runs : Nat
  nextTag : Tag
  deriving Inhabited

namespace Store

/-- The store without contents. -/
def empty : Store := ⟨#[], #[], 0, ⟨0, none, 0⟩⟩

/-- The entries of a mapping, in order of insertion. -/
def entries (σ : Store) (address : Nat) : List (Value × Value) := σ.mappings.getD address []

/-- The object at an address. -/
def object (σ : Store) (address : Nat) : Object := σ.objects.getD address default

/-- A new mapping. -/
def addMapping (σ : Store) (entries : List (Value × Value)) : Value × Store :=
  (.mapping σ.mappings.size, { σ with mappings := σ.mappings.push entries })

/-- A new object. -/
def addObject (σ : Store) (o : Object) : Value × Store :=
  (.object σ.objects.size, { σ with objects := σ.objects.push o })

/-- A mapping with new entries. -/
def setEntries (σ : Store) (address : Nat) (entries : List (Value × Value)) : Store :=
  { σ with mappings := σ.mappings.setIfInBounds address entries }

/-- An object with new attributes. -/
def setAttributes (σ : Store) (address : Nat) (attributes : List (String × Value)) : Store :=
  let o := { σ.object address with attributes := attributes }
  { σ with objects := σ.objects.setIfInBounds address o }

/-- A bound on how many distinct mappings and objects a path through values can visit. -/
def nesting (σ : Store) : Nat := σ.mappings.size + σ.objects.size

/-- The entries just set are the entries read. -/
theorem entries_setEntries (σ : Store) (address : Nat) (es : List (Value × Value))
    (h : address < σ.mappings.size) : (σ.setEntries address es).entries address = es := by
  simp [setEntries, entries, h]

/-- Setting one mapping leaves the others. -/
theorem entries_setEntries_ne (σ : Store) (a b : Nat) (es : List (Value × Value)) (h : a ≠ b) :
    (σ.setEntries a es).entries b = σ.entries b := by
  simp [setEntries, entries, Array.getD_eq_getD_getElem?, h]

end Store

/-- A computation on the store that may fail.  What it wrote before failing stays written. -/
abbrev Eval := EStateM Fault Store

namespace Eval

/-- A tag that no value has yet. -/
def freshTag : Eval Tag := fun σ =>
  .ok σ.nextTag { σ with nextTag := { σ.nextTag with serial := σ.nextTag.serial + 1 } }

/-- From here on tags are those of a new run. -/
def openRun : Eval Unit :=
  modify fun σ => { σ with runs := σ.runs + 1, nextTag := ⟨σ.runs + 1, none, 0⟩ }

/-- From here on tags are those of an item of the current run; answers the tag that would have been
next. -/
def openItem (position : Nat) : Eval Tag := fun σ =>
  .ok σ.nextTag { σ with nextTag := ⟨σ.nextTag.run, some position, 0⟩ }

/-- From here on tags go on from an earlier one. -/
def resumeTags (tag : Tag) : Eval Unit := modify fun σ => { σ with nextTag := tag }

/-- A list of its own identity. -/
def newList (items : List Value) : Eval Value := do
  return .list (← freshTag) items

/-- The value of arithmetic: a double, or a fresh value that is no number. -/
def ofFloat : Option Binary64 → Eval Value
  | some x => return .float x
  | none => return .nan (← freshTag)

/-- A new mapping with the entries. -/
def newMapping (entries : List (Value × Value)) : Eval Value :=
  modifyGet fun σ => σ.addMapping entries

/-- A computed answer, or the fault. -/
def ofExcept {α : Type} : Except Fault α → Eval α
  | .ok a => return a
  | .error fault => throw fault

end Eval

/-! ## Types and truth -/

namespace Value

/-- The name of a value's type. -/
def typeName (σ : Store) : Value → String
  | null => "NoneType"
  | bool _ => "bool"
  | int _ => "int"
  | float _ => "float"
  | nan _ => "float"
  | str _ => "str"
  | list _ _ => "list"
  | tuple _ => "tuple"
  | row _ type _ => type.name
  | set frozen _ => if frozen then "frozenset" else "set"
  | mapping _ => "dict"
  | object address => (σ.object address).type.name
  | function _ _ => "function"
  | selector (.composite _) => "CompositeSelector"
  | selector _ => "Selector"
  | setter _ => "Setter"
  | target _ _ => "FieldTarget"

/-- Whether a value counts as true. -/
def truthy (σ : Store) : Value → Bool
  | null => false
  | bool b => b
  | int n => n != 0
  | float x => !x.isZero
  | str s => !s.isEmpty
  | list _ items => !items.isEmpty
  | tuple items => !items.isEmpty
  | row _ _ items => !items.isEmpty
  | set _ items => !items.isEmpty
  | mapping address => !(σ.entries address).isEmpty
  | _ => true

/-- Whether a value is the null value. -/
def isNull : Value → Bool
  | null => true
  | _ => false

/-- Values that stand for an integer in arithmetic. -/
def asInt? : Value → Option Int
  | int n => some n
  | bool b => some (if b then 1 else 0)
  | _ => none

/-- The items of a list, tuple or row. -/
def sequence? : Value → Option (List Value)
  | list _ items => some items
  | tuple items => some items
  | row _ _ items => some items
  | _ => none

/-- Whether a value can be called. -/
def isCallable : Value → Bool
  | function _ _ => true
  | selector _ => true
  | setter _ => true
  | _ => false

end Value

end Rubric
