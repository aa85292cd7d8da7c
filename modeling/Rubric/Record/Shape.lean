import Rubric.Value.Display

/-!
# Record shapes

A shape lists the attributes of a kind of record, each with the attributes of its own value where
that is a record too.  Flattening gives every bindable attribute one name: an attribute with
several children gives way to them, under names that join its own and theirs.
-/

namespace Rubric

open Rubric.Text

/-- An attribute and the names of its children. -/
structure Attribute where
  name : String
  children : List String
  deriving DecidableEq, Repr, Inhabited

namespace Attribute

/-- Whether an attribute gives way to its children. -/
def isComposite (a : Attribute) : Bool := 1 < a.children.length

/-- Whether an attribute has a child of that name. -/
def hasChild (a : Attribute) (name : String) : Bool := a.children.contains name

end Attribute

/-- The attributes of a kind of record. -/
structure RecordShape where
  /-- The name of the kind. -/
  kind : String
  attributes : List Attribute
  deriving DecidableEq, Repr, Inhabited

namespace RecordShape

/-- The attribute of that name. -/
def attribute? (s : RecordShape) (name : String) : Option Attribute :=
  s.attributes.find? fun a => a.name == name

/-- The names of the attributes. -/
def attributeNames (s : RecordShape) : List String := s.attributes.map Attribute.name

/-- The shown form of a shape. -/
def shown (s : RecordShape) : String :=
  s!"RecordShape({s.kind}, {s.attributes.length} attributes)"

end RecordShape

/-! ## Flattening -/

/-- The bindable names of an attribute and their paths. -/
def Attribute.flattened (a : Attribute) : List (String × List String) :=
  if a.isComposite then a.children.map fun c => (a.name ++ "_" ++ c, [a.name, c])
  else [(a.name, [a.name])]

/-- The first of the names that occurs earlier. -/
def firstRepeated (seen : List String) : List String → Option String
  | [] => none
  | n :: rest => if seen.contains n then some n else firstRepeated (n :: seen) rest

/-- The bindable names of a shape and their paths, in order, repeated or not. -/
def RecordShape.allNames (s : RecordShape) : List (String × List String) :=
  s.attributes.flatMap Attribute.flattened

/-- The bindable names of a shape and their paths; no two may coincide. -/
def RecordShape.flatten (s : RecordShape) : Except Fault (List (String × List String)) :=
  match firstRepeated [] (s.allNames.map Prod.fst) with
  | some name => .error (.shape (.duplicateName name))
  | none => .ok s.allNames

/-! ## Shapes of mappings -/

/-- Attributes with one more name, at the end where it is new. -/
def noteAttribute (name : String) (children : List String) : List Attribute → List Attribute
  | [] => [⟨name, children.foldl noteName []⟩]
  | a :: rest =>
    if a.name = name then ⟨a.name, children.foldl noteName a.children⟩ :: rest
    else a :: noteAttribute name children rest
where
  /-- Names with one more, at the end where it is new. -/
  noteName (names : List String) (name : String) : List String :=
    if names.contains name then names else names ++ [name]

/-- The names of a mapping value's keys; other values have none. -/
def childNames (σ : Store) : Value → List String
  | .mapping address => (σ.entries address).map fun e => e.1.text σ
  | _ => []

/-- The attributes with those of one more sample. -/
def noteSample (σ : Store) (attributes : List Attribute) (entries : List (Value × Value)) :
    List Attribute :=
  entries.foldl (fun as e => noteAttribute (e.1.text σ) (childNames σ e.2) as) attributes

/-- The attributes of the samples from the one with a number on. -/
def noteSamples (σ : Store) (index : Nat) (attributes : List Attribute) :
    List Value → Except Fault (List Attribute)
  | [] => .ok attributes
  | .mapping address :: rest =>
    noteSamples σ (index + 1) (noteSample σ attributes (σ.entries address)) rest
  | v :: _ => .error (.shape (.sampleType index (v.typeName σ)))

/-- The shape of mappings like the samples: attributes in the order in which they are first
seen, the keys of mapping values as children. -/
def RecordShape.ofSamples (σ : Store) (samples : List Value) : Except Fault RecordShape :=
  if samples.isEmpty then .error (.shape .noSamples)
  else (noteSamples σ 0 [] samples).map fun attributes => ⟨"dict", attributes⟩

end Rubric
